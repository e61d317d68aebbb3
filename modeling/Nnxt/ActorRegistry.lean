import Nnxt.Foundation.HashMap

/-!
# The actor registry of the master

Two maps are kept side by side: the registration of every actor, and the owner
of every queue address. Requests that fail return the error and the registry
they leave behind.
-/

namespace Nnxt

set_option autoImplicit false

open HashMap FixedWidth

structure QueueInfo where
  addr : String
  queueType : String
  deriving DecidableEq, Repr

structure ActorRegistration where
  actorId : String
  actorType : String
  queues : List QueueInfo
  deriving DecidableEq, Repr

inductive HealthStatus where
  | healthy
  | unhealthy
  deriving DecidableEq, Repr

structure ActorSnapshot where
  actorId : String
  actorType : String
  queues : List QueueInfo
  status : HealthStatus
  lastHeartbeatNs : UInt64
  deriving DecidableEq, Repr

inductive RegistryError where
  | actorNotFound (actorId : String)
  | queueNotFound (queueAddr : String)
  | queueAlreadyRegistered (queueAddr owner : String)
  | actorTypeNotFound (actorType : String)
  | queueTypeNotFound (actorId queueType : String)
  deriving DecidableEq, Repr

structure ActorRecord where
  registration : ActorRegistration
  lastHeartbeatNs : UInt64
  status : HealthStatus
  deriving DecidableEq, Repr

structure QueueOwner where
  owner : String
  queueType : String
  deriving DecidableEq, Repr

structure ActorRegistry where
  actors : Map String ActorRecord
  queues : Map String QueueOwner

def removeQueues (queues : Map String QueueOwner) (infos : List QueueInfo) :
    Map String QueueOwner :=
  infos.foldl (fun queues info => queues.erase info.addr) queues

def insertQueues (owner : String) (queues : Map String QueueOwner) (infos : List QueueInfo) :
    Map String QueueOwner :=
  infos.foldl (fun queues info => queues.insert info.addr ⟨owner, info.queueType⟩) queues

namespace ActorRegistry

def new : ActorRegistry := ⟨∅, ∅⟩

def queuesOf (r : ActorRegistry) (actorId : String) : List QueueInfo :=
  (r.actors.lookup actorId).elim [] (·.registration.queues)

def register (r : ActorRegistry) (actor : ActorRegistration) (nowNs : UInt64) :
    ActorRegistry × Except RegistryError Unit :=
  -- the old queues go before the conflict check, and stay gone when it fails
  let queues := removeQueues r.queues (r.queuesOf actor.actorId)
  let conflict := actor.queues.findSome? fun info =>
    (queues.lookup info.addr).map fun owner => .queueAlreadyRegistered info.addr owner.owner
  match conflict with
  | some error => ({ r with queues := queues }, .error error)
  | none =>
    ({ queues := insertQueues actor.actorId queues actor.queues
       actors := r.actors.insert actor.actorId ⟨actor, nowNs, .healthy⟩ }, .ok ())

def registerQueue (r : ActorRegistry) (actorId : String) (queue : QueueInfo) :
    ActorRegistry × Except RegistryError Unit :=
  match r.actors.lookup actorId with
  | none => (r, .error (.actorNotFound actorId))
  | some record =>
    match r.queues.lookup queue.addr with
    | some owner => (r, .error (.queueAlreadyRegistered queue.addr owner.owner))
    | none =>
      let registration := { record.registration with queues := record.registration.queues ++ [queue] }
      ({ queues := r.queues.insert queue.addr ⟨actorId, queue.queueType⟩
         actors := r.actors.insert actorId { record with registration := registration } }, .ok ())

def unregister (r : ActorRegistry) (actorId : String) : ActorRegistry × Except RegistryError Unit :=
  match r.actors.lookup actorId with
  | none => (r, .error (.actorNotFound actorId))
  | some record =>
    ({ actors := r.actors.erase actorId
       queues := removeQueues r.queues record.registration.queues }, .ok ())

def recordHeartbeat (r : ActorRegistry) (actorId : String) (nowNs : UInt64) :
    ActorRegistry × Except RegistryError Unit :=
  match r.actors.lookup actorId with
  | none => (r, .error (.actorNotFound actorId))
  | some record =>
    let record := { record with lastHeartbeatNs := nowNs, status := .healthy }
    ({ r with actors := r.actors.insert actorId record }, .ok ())

def updateHealth (r : ActorRegistry) (nowNs timeoutNs : UInt64) : ActorRegistry :=
  { r with actors := mapValues (fun record =>
      if timeoutNs < saturatingSub nowNs record.lastHeartbeatNs then
        { record with status := .unhealthy }
      else record) r.actors }

def lookupQueue (r : ActorRegistry) (queueAddr : String) : Except RegistryError (String × String) :=
  match r.queues.lookup queueAddr with
  | some owner => .ok (owner.owner, owner.queueType)
  | none => .error (.queueNotFound queueAddr)

def findQueuesByType (r : ActorRegistry) (queueType : String) : List QueueInfo :=
  (r.queues.entries.filter fun entry => entry.2.queueType = queueType).map fun entry =>
    ⟨entry.1, entry.2.queueType⟩

def findQueuesByActorType (r : ActorRegistry) (actorType queueType : String) : List QueueInfo :=
  (r.queues.entries.filter fun entry =>
    entry.2.queueType = queueType ∧
      ((r.actors.lookup entry.2.owner).map fun record =>
        decide (record.registration.actorType = actorType)).getD false).map fun entry =>
    ⟨entry.1, entry.2.queueType⟩

def snapshot (record : ActorRecord) : ActorSnapshot where
  actorId := record.registration.actorId
  actorType := record.registration.actorType
  queues := record.registration.queues
  status := record.status
  lastHeartbeatNs := record.lastHeartbeatNs

def listActors (r : ActorRegistry) : List ActorSnapshot := (values r.actors).map snapshot

def findActorByType (r : ActorRegistry) (actorType : String) : Except RegistryError String :=
  match (values r.actors).find? fun record => record.registration.actorType = actorType with
  | some record => .ok record.registration.actorId
  | none => .error (.actorTypeNotFound actorType)

def findQueueByOwnerType (r : ActorRegistry) (actorId queueType : String) :
    Except RegistryError String :=
  match r.queues.entries.find? fun entry =>
    entry.2.owner = actorId ∧ entry.2.queueType = queueType with
  | some entry => .ok entry.1
  | none => .error (.queueTypeNotFound actorId queueType)

def controlQueue (r : ActorRegistry) (actorId : String) : Except RegistryError (Option String) :=
  match r.actors.lookup actorId with
  | none => .error (.actorNotFound actorId)
  | some record =>
    .ok ((record.registration.queues.find? fun queue => queue.queueType = "control").map (·.addr))

end ActorRegistry

section Loops
variable {queues : Map String QueueOwner} {owner addr : String} {infos : List QueueInfo}

theorem lookup_removeQueues :
    (removeQueues queues infos).lookup addr =
      if addr ∈ infos.map (·.addr) then none else queues.lookup addr := by
  induction infos generalizing queues with
  | nil => simp [removeQueues]
  | cons info infos ih =>
    have hstep : removeQueues queues (info :: infos) = removeQueues (queues.erase info.addr) infos :=
      rfl
    rw [hstep, ih, List.map_cons, lookup_erase_eq]
    by_cases hmem : addr ∈ infos.map (·.addr)
    · rw [if_pos hmem, if_pos (List.mem_cons_of_mem _ hmem)]
    · rw [if_neg hmem]
      by_cases heq : addr = info.addr
      · rw [if_pos heq, if_pos (heq ▸ List.mem_cons_self)]
      · have hcons : addr ∉ info.addr :: infos.map (·.addr) := by
          intro h
          rcases List.mem_cons.mp h with h | h
          · exact heq h
          · exact hmem h
        rw [if_neg heq, if_neg hcons]

theorem lookup_insertQueues_of_notMem (h : addr ∉ infos.map (·.addr)) :
    (insertQueues owner queues infos).lookup addr = queues.lookup addr := by
  induction infos generalizing queues with
  | nil => rfl
  | cons info infos ih =>
    rw [List.map_cons, List.mem_cons, not_or] at h
    have hstep : insertQueues owner queues (info :: infos) =
        insertQueues owner (queues.insert info.addr ⟨owner, info.queueType⟩) infos := rfl
    rw [hstep, ih h.2, AList.lookup_insert_ne h.1]

theorem lookup_insertQueues_of_nodup (hnodup : (infos.map (·.addr)).Nodup) {info : QueueInfo}
    (hmem : info ∈ infos) :
    (insertQueues owner queues infos).lookup info.addr = some ⟨owner, info.queueType⟩ := by
  induction infos generalizing queues with
  | nil => cases hmem
  | cons head infos ih =>
    rw [List.map_cons, List.nodup_cons] at hnodup
    have hstep : insertQueues owner queues (head :: infos) =
        insertQueues owner (queues.insert head.addr ⟨owner, head.queueType⟩) infos := rfl
    rw [hstep]
    rcases List.mem_cons.mp hmem with rfl | hmem
    · rw [lookup_insertQueues_of_notMem hnodup.1, AList.lookup_insert]
    · exact ih hnodup.2 hmem

end Loops

namespace ActorRegistry
variable (r : ActorRegistry)

/-- The queue map once the actor's old queues are gone. -/
def kept (actorId : String) : Map String QueueOwner := removeQueues r.queues (r.queuesOf actorId)

/-- Everything `register` can do. -/
theorem register_cases (actor : ActorRegistration) (nowNs : UInt64) :
    (∃ info ∈ actor.queues, ∃ owner, (r.kept actor.actorId).lookup info.addr = some owner ∧
      ∃ error, r.register actor nowNs =
        ({ r with queues := r.kept actor.actorId }, .error error)) ∨
    ((∀ info ∈ actor.queues, (r.kept actor.actorId).lookup info.addr = none) ∧
      r.register actor nowNs =
        ({ queues := insertQueues actor.actorId (r.kept actor.actorId) actor.queues
           actors := r.actors.insert actor.actorId ⟨actor, nowNs, .healthy⟩ }, .ok ())) := by
  cases hc : actor.queues.findSome? fun info =>
      ((r.kept actor.actorId).lookup info.addr).map fun owner =>
        RegistryError.queueAlreadyRegistered info.addr owner.owner with
  | some error =>
    refine Or.inl ?_
    obtain ⟨info, hmem, hsome⟩ := List.exists_of_findSome?_eq_some hc
    obtain ⟨owner, howner, _⟩ := Option.map_eq_some_iff.mp hsome
    refine ⟨info, hmem, owner, howner, error, ?_⟩
    simp only [kept] at hc ⊢
    simp only [register, hc]
  | none =>
    refine Or.inr ⟨?_, ?_⟩
    · intro info hmem
      exact Option.map_eq_none_iff.mp (List.findSome?_eq_none_iff.mp hc info hmem)
    · simp only [kept] at hc ⊢
      simp only [register, hc]

theorem registerQueue_cases (actorId : String) (queue : QueueInfo) :
    (r.registerQueue actorId queue).1 = r ∨
    ∃ record, r.actors.lookup actorId = some record ∧ r.queues.lookup queue.addr = none ∧
      (r.registerQueue actorId queue).1 =
        { queues := r.queues.insert queue.addr ⟨actorId, queue.queueType⟩
          actors := r.actors.insert actorId { record with
            registration := { record.registration with
              queues := record.registration.queues ++ [queue] } } } := by
  cases ha : r.actors.lookup actorId with
  | none => exact Or.inl (by simp only [registerQueue, ha])
  | some record =>
    cases hq : r.queues.lookup queue.addr with
    | some owner => exact Or.inl (by simp only [registerQueue, ha, hq])
    | none => exact Or.inr ⟨record, rfl, rfl, by simp only [registerQueue, ha, hq]⟩

end ActorRegistry

end Nnxt
