import Nnxt.RegistryRuns

/-!
# What a registry call does to others

`register` and `unregister` remove every address on the record of the caller,
whoever owns it by then, and a refused `register` has already removed them.
-/

namespace Nnxt.RegistryFrame

set_option autoImplicit false

open HashMap ActorRegistry RegistryIndex

/-- The actor a call is made for. -/
def caller : Step → Option String
  | .register actor _ => some actor.actorId
  | .registerQueue actorId _ => some actorId
  | .unregister actorId => some actorId
  | .recordHeartbeat actorId _ => some actorId
  | .updateHealth _ _ => none

def result (r : ActorRegistry) : Step → Except RegistryError Unit
  | .register actor nowNs => (r.register actor nowNs).2
  | .registerQueue actorId queue => (r.registerQueue actorId queue).2
  | .unregister actorId => (r.unregister actorId).2
  | .recordHeartbeat actorId nowNs => (r.recordHeartbeat actorId nowNs).2
  | .updateHealth _ _ => .ok ()

/-- Every address attributed to an actor other than the caller stays attributed
to it, with the same type. -/
def LeavesOthers (r : ActorRegistry) (i : Step) : Prop :=
  ∀ actorId, caller i = some actorId → ∀ addr owner queueType, owner ≠ actorId →
    r.lookupQueue addr = .ok (owner, queueType) →
    (step r i).lookupQueue addr = .ok (owner, queueType)

def FailsUnchanged (r : ActorRegistry) (i : Step) : Prop :=
  ∀ error, result r i = .error error → step r i = r

/-- No address on the record of the actor belongs to another actor. -/
def ListsOwn (r : ActorRegistry) (actorId : String) : Prop :=
  ∀ info ∈ r.queuesOf actorId, ∀ owner, r.queues.lookup info.addr = some owner →
    owner.owner = actorId

def RemovesOwn (r : ActorRegistry) : Step → Prop
  | .register actor _ => ListsOwn r actor.actorId
  | .unregister actorId => ListsOwn r actorId
  | _ => True

/-- A requested address is taken and is not one the actor gives up. -/
def Refused (r : ActorRegistry) (actor : ActorRegistration) : Prop :=
  ∃ info ∈ actor.queues, info.addr ∉ (r.queuesOf actor.actorId).map (·.addr) ∧
    r.queues.lookup info.addr ≠ none

/-- A `register` that is refused finds none of the actor's old addresses in the queue map. -/
def RefusesInPlace (r : ActorRegistry) : Step → Prop
  | .register actor _ =>
    Refused r actor → ∀ info ∈ r.queuesOf actor.actorId, r.queues.lookup info.addr = none
  | _ => True

section Calls
variable {r : ActorRegistry}

theorem lookupQueue_eq_ok_iff {addr owner queueType : String} :
    r.lookupQueue addr = .ok (owner, queueType) ↔
      r.queues.lookup addr = some ⟨owner, queueType⟩ := by
  unfold lookupQueue
  cases r.queues.lookup addr with
  | none => simp
  | some found => cases found; simp

theorem refused_iff {actor : ActorRegistration} :
    Refused r actor ↔ ∃ info ∈ actor.queues, (r.kept actor.actorId).lookup info.addr ≠ none := by
  constructor
  · intro h
    obtain ⟨info, hmem, hnot, hsome⟩ := h
    refine ⟨info, hmem, ?_⟩
    rwa [lookup_kept, if_neg hnot]
  · intro h
    obtain ⟨info, hmem, hsome⟩ := h
    rw [lookup_kept] at hsome
    split at hsome
    · exact absurd rfl hsome
    · rename_i hnot
      exact ⟨info, hmem, hnot, hsome⟩

theorem register_of_refused {actor : ActorRegistration} (h : Refused r actor) (nowNs : UInt64) :
    ∃ error, r.register actor nowNs = ({ r with queues := r.kept actor.actorId }, .error error) := by
  rcases r.register_cases actor nowNs with ⟨_, _, _, _, hregister⟩ | ⟨hfree, _⟩
  · exact hregister
  · obtain ⟨info, hmem, hsome⟩ := refused_iff.mp h
    exact absurd (hfree info hmem) hsome

theorem register_of_not_refused {actor : ActorRegistration} (h : ¬ Refused r actor)
    (nowNs : UInt64) :
    r.register actor nowNs =
      ({ queues := insertQueues actor.actorId (r.kept actor.actorId) actor.queues
         actors := r.actors.insert actor.actorId ⟨actor, nowNs, .healthy⟩ }, .ok ()) := by
  rcases r.register_cases actor nowNs with ⟨info, hmem, owner, howner, _⟩ | ⟨_, hregister⟩
  · refine absurd (refused_iff.mpr ⟨info, hmem, ?_⟩) h
    rw [howner]
    exact Option.some_ne_none owner
  · exact hregister

theorem removeQueues_of_none {queues : Map String QueueOwner} {infos : List QueueInfo}
    (h : ∀ info ∈ infos, queues.lookup info.addr = none) : removeQueues queues infos = queues := by
  induction infos with
  | nil => rfl
  | cons info infos ih =>
    rw [List.forall_mem_cons] at h
    have hstep : removeQueues queues (info :: infos) = removeQueues (queues.erase info.addr) infos :=
      rfl
    rw [hstep, erase_of_none h.1]
    exact ih h.2

/-- The removal changes nothing exactly when there is nothing to remove. -/
theorem kept_eq_iff {actorId : String} :
    r.kept actorId = r.queues ↔ ∀ info ∈ r.queuesOf actorId, r.queues.lookup info.addr = none := by
  constructor
  · intro h info hmem
    rw [← h, lookup_kept, if_pos (List.mem_map_of_mem hmem)]
  · intro h
    exact removeQueues_of_none h

/-- The removal spares the others exactly when the record lists nothing of theirs. -/
theorem listsOwn_iff {actorId : String} :
    ListsOwn r actorId ↔ ∀ addr owner, owner.owner ≠ actorId → r.queues.lookup addr = some owner →
      (r.kept actorId).lookup addr = some owner := by
  constructor
  · intro h addr owner hne hlook
    have hnot : addr ∉ (r.queuesOf actorId).map (·.addr) := by
      intro hmem
      obtain ⟨info, hinfo, rfl⟩ := List.mem_map.mp hmem
      exact hne (h info hinfo owner hlook)
    rwa [lookup_kept, if_neg hnot]
  · intro h info hmem owner hlook
    by_contra hne
    have hkept := h info.addr owner hne hlook
    rw [lookup_kept, if_pos (List.mem_map_of_mem hmem)] at hkept
    cases hkept

theorem lookup_insertQueues_of_mem {queues : Map String QueueOwner} {owner addr : String}
    {infos : List QueueInfo} (h : addr ∈ infos.map (·.addr)) :
    ∃ queueType, (insertQueues owner queues infos).lookup addr = some ⟨owner, queueType⟩ := by
  induction infos generalizing queues with
  | nil => cases h
  | cons info infos ih =>
    have hstep : insertQueues owner queues (info :: infos) =
        insertQueues owner (queues.insert info.addr ⟨owner, info.queueType⟩) infos := rfl
    rw [hstep]
    by_cases hlater : addr ∈ infos.map (·.addr)
    · exact ih hlater
    · have haddr := (List.mem_cons.mp h).resolve_right hlater
      refine ⟨info.queueType, ?_⟩
      rw [lookup_insertQueues_of_notMem hlater, haddr, AList.lookup_insert]

/-- For the other actors a `register` call is the removal, whether it is refused or not. -/
theorem lookup_register {actor : ActorRegistration} {nowNs : UInt64} {addr : String}
    {owner : QueueOwner} (hne : owner.owner ≠ actor.actorId) :
    (r.register actor nowNs).1.queues.lookup addr = some owner ↔
      (r.kept actor.actorId).lookup addr = some owner := by
  by_cases hrefused : Refused r actor
  · obtain ⟨error, hregister⟩ := register_of_refused hrefused nowNs
    rw [hregister]
  · rw [register_of_not_refused hrefused nowNs]
    by_cases hmem : addr ∈ actor.queues.map (·.addr)
    · have hfree : (r.kept actor.actorId).lookup addr = none := by
        obtain ⟨info, hinfo, rfl⟩ := List.mem_map.mp hmem
        by_contra hsome
        exact hrefused (refused_iff.mpr ⟨info, hinfo, hsome⟩)
      obtain ⟨queueType, hlook⟩ := @lookup_insertQueues_of_mem (r.kept actor.actorId)
        actor.actorId addr actor.queues hmem
      rw [hlook, hfree, Option.some.injEq]
      constructor
      · intro heq
        rw [← heq] at hne
        exact absurd rfl hne
      · intro heq
        cases heq
    · rw [lookup_insertQueues_of_notMem hmem]

theorem queues_unregister (r : ActorRegistry) (actorId : String) :
    (r.unregister actorId).1.queues = r.kept actorId := by
  unfold unregister kept queuesOf
  cases r.actors.lookup actorId <;> rfl

theorem queues_recordHeartbeat (r : ActorRegistry) (actorId : String) (nowNs : UInt64) :
    (r.recordHeartbeat actorId nowNs).1.queues = r.queues := by
  unfold recordHeartbeat
  cases r.actors.lookup actorId <;> rfl

theorem lookup_registerQueue {actorId addr : String} {queue : QueueInfo} {owner : QueueOwner}
    (h : r.queues.lookup addr = some owner) :
    (r.registerQueue actorId queue).1.queues.lookup addr = some owner := by
  rcases r.registerQueue_cases actorId queue with heq | ⟨record, _, hfree, heq⟩
  · rwa [heq]
  · have hne : addr ≠ queue.addr := by
      intro haddr
      rw [haddr, hfree] at h
      cases h
    rw [heq, AList.lookup_insert_ne hne]
    exact h

theorem leavesOthers_iff_lookup {i : Step} {actorId : String} (h : caller i = some actorId) :
    LeavesOthers r i ↔ ∀ addr owner, owner.owner ≠ actorId → r.queues.lookup addr = some owner →
      (step r i).queues.lookup addr = some owner := by
  simp only [LeavesOthers, h, Option.some.injEq, forall_eq', lookupQueue_eq_ok_iff]
  constructor
  · intro hleaves addr owner hne hlook
    exact hleaves addr owner.owner owner.queueType hne hlook
  · intro hleaves addr owner queueType hne hlook
    exact hleaves addr ⟨owner, queueType⟩ hne hlook

theorem leavesOthers_iff (r : ActorRegistry) (i : Step) : LeavesOthers r i ↔ RemovesOwn r i := by
  cases i with
  | register actor nowNs =>
    rw [leavesOthers_iff_lookup rfl, RemovesOwn, listsOwn_iff]
    refine forall₃_congr fun addr owner hne => ?_
    rw [step, lookup_register hne]
  | registerQueue actorId queue =>
    rw [leavesOthers_iff_lookup rfl]
    exact iff_of_true (fun _ _ _ hlook => lookup_registerQueue hlook) trivial
  | unregister actorId =>
    rw [leavesOthers_iff_lookup rfl, RemovesOwn, listsOwn_iff, step, queues_unregister]
  | recordHeartbeat actorId nowNs =>
    rw [leavesOthers_iff_lookup rfl, step, queues_recordHeartbeat]
    exact iff_of_true (fun _ _ _ hlook => hlook) trivial
  | updateHealth nowNs timeoutNs =>
    refine iff_of_true ?_ trivial
    intro actorId hcaller
    cases hcaller

/-- A refused call leaves the registry with the record's addresses removed. -/
theorem failsUnchanged_register (r : ActorRegistry) (actor : ActorRegistration) (nowNs : UInt64) :
    FailsUnchanged r (.register actor nowNs) ↔ RefusesInPlace r (.register actor nowNs) := by
  unfold FailsUnchanged
  by_cases hrefused : Refused r actor
  · obtain ⟨error, hregister⟩ := register_of_refused hrefused nowNs
    have hkept : RefusesInPlace r (.register actor nowNs) ↔ r.kept actor.actorId = r.queues := by
      rw [kept_eq_iff]
      exact ⟨fun h => h hrefused, fun h _ => h⟩
    rw [hkept, result, step, hregister]
    constructor
    · intro h
      exact congrArg ActorRegistry.queues (h error rfl)
    · intro h _ _
      rw [h]
  · refine iff_of_true ?_ fun h => absurd h hrefused
    intro error herror
    rw [result, register_of_not_refused hrefused] at herror
    cases herror

theorem failsUnchanged_iff (r : ActorRegistry) (i : Step) :
    FailsUnchanged r i ↔ RefusesInPlace r i := by
  cases i with
  | register actor nowNs => exact failsUnchanged_register r actor nowNs
  | registerQueue actorId queue =>
    refine iff_of_true ?_ trivial
    intro error herror
    simp only [result, step, registerQueue] at herror ⊢
    split at herror
    · rfl
    · split at herror
      · rfl
      · cases herror
  | unregister actorId =>
    refine iff_of_true ?_ trivial
    intro error herror
    simp only [result, step, unregister] at herror ⊢
    split at herror
    · rfl
    · cases herror
  | recordHeartbeat actorId nowNs =>
    refine iff_of_true ?_ trivial
    intro error herror
    simp only [result, step, recordHeartbeat] at herror ⊢
    split at herror
    · rfl
    · cases herror
  | updateHealth nowNs timeoutNs =>
    refine iff_of_true ?_ trivial
    intro error herror
    cases herror

end Calls

end Nnxt.RegistryFrame
