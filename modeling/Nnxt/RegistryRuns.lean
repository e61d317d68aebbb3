import Nnxt.RegistryIndex

/-!
# Which calls keep the indexes together

Each operation is followed by what it does to the two indexes. A clean call
keeps the invariant, and one that is not clean breaks the agreement at once.
-/

namespace Nnxt.RegistryIndex

set_option autoImplicit false

open HashMap ActorRegistry

section Steps
variable {r : ActorRegistry}

theorem lists_insert {queues : Map String QueueOwner} {actorId owner addr queueType : String}
    {record : ActorRecord} :
    Lists ⟨r.actors.insert actorId record, queues⟩ owner addr queueType ↔
      (owner = actorId ∧ ⟨addr, queueType⟩ ∈ record.registration.queues) ∨
      (owner ≠ actorId ∧ Lists r owner addr queueType) := by
  unfold Lists
  by_cases heq : owner = actorId
  · subst heq
    simp
  · simp [heq]

theorem queuesOf_insert {queues : Map String QueueOwner} {actorId owner : String}
    {record : ActorRecord} :
    queuesOf ⟨r.actors.insert actorId record, queues⟩ owner =
      if owner = actorId then record.registration.queues else r.queuesOf owner := by
  simp only [queuesOf, lookup_insert_eq]
  split <;> rfl

theorem agrees_of_indexed
    (hindexed : ∀ addr owner queueType,
      r.queues.lookup addr = some ⟨owner, queueType⟩ ↔ Lists r owner addr queueType)
    (honce : ∀ owner, ((r.queuesOf owner).map (·.addr)).Nodup) : Agrees r := by
  refine ⟨hindexed, honce, ?_⟩
  intro addr owner owner' queueType queueType' h h'
  have hsome := (hindexed _ _ _).mpr h
  rw [(hindexed _ _ _).mpr h'] at hsome
  cases hsome
  rfl

/-- The registration an actor is filed under is the one it made. -/
theorem Inv.filed_insert (h : Inv r) {actorId : String} {record : ActorRecord}
    (hid : record.registration.actorId = actorId) {other : String} {found : ActorRecord}
    (hfound : (r.actors.insert actorId record).lookup other = some found) :
    found.registration.actorId = other := by
  rw [lookup_insert_eq] at hfound
  split at hfound
  · rename_i heq
    cases hfound
    exact hid.trans heq.symm
  · exact h.filed other found hfound

theorem Inv.once_insert (h : Inv r) {queues : Map String QueueOwner} {actorId : String}
    {record : ActorRecord} (hnodup : (record.registration.queues.map (·.addr)).Nodup)
    (owner : String) :
    ((queuesOf ⟨r.actors.insert actorId record, queues⟩ owner).map (·.addr)).Nodup := by
  rw [queuesOf_insert]
  split
  · exact hnodup
  · exact h.agrees.once owner

theorem queuesOf_eq (r : ActorRegistry) (owner : String) :
    r.queuesOf owner = ((r.actors.lookup owner).map (·.registration)).elim [] (·.queues) := by
  unfold queuesOf
  cases r.actors.lookup owner with
  | none => rfl
  | some record => rfl

theorem Inv.congr {r' : ActorRegistry} (h : Inv r) (hqueues : r'.queues = r.queues)
    (hregistration : ∀ actorId, (r'.actors.lookup actorId).map (·.registration) =
      (r.actors.lookup actorId).map (·.registration)) : Inv r' := by
  have hqueuesOf : ∀ owner, r'.queuesOf owner = r.queuesOf owner := by
    intro owner
    rw [queuesOf_eq, hregistration, ← queuesOf_eq]
  refine ⟨agrees_of_indexed ?_ ?_, ?_⟩
  · intro addr owner queueType
    rw [hqueues, h.agrees.indexed, ← mem_queuesOf, ← mem_queuesOf, hqueuesOf]
  · intro owner
    rw [hqueuesOf]
    exact h.agrees.once owner
  · intro actorId record hrecord
    have hmap := hregistration actorId
    rw [hrecord, Option.map_some] at hmap
    obtain ⟨record₀, hrecord₀, heq⟩ := Option.map_eq_some_iff.mp hmap.symm
    rw [← heq]
    exact h.filed actorId record₀ hrecord₀

theorem lookup_kept {actorId addr : String} :
    (r.kept actorId).lookup addr =
      if addr ∈ (r.queuesOf actorId).map (·.addr) then none else r.queues.lookup addr :=
  lookup_removeQueues

/-- What is left after the removal is what the other actors list. -/
theorem Agrees.lookup_kept_iff (h : Agrees r) {actorId addr owner queueType : String} :
    (r.kept actorId).lookup addr = some ⟨owner, queueType⟩ ↔
      owner ≠ actorId ∧ Lists r owner addr queueType := by
  rw [lookup_kept]
  split
  · rename_i hmine
    obtain ⟨queueType', hlists⟩ := mem_addrs.mp hmine
    constructor
    · intro hnone
      cases hnone
    · rintro ⟨hne, hother⟩
      exact absurd (h.apart _ _ _ _ _ hother hlists) hne
  · rename_i hnot
    rw [h.indexed]
    constructor
    · intro hlists
      refine ⟨?_, hlists⟩
      rintro rfl
      exact hnot (mem_addrs.mpr ⟨_, hlists⟩)
    · exact fun hlists => hlists.2

theorem Agrees.conflicts_iff (h : Agrees r) {actor : ActorRegistration} :
    Conflicts r actor ↔
      ∃ info ∈ actor.queues, ∃ owner, (r.kept actor.actorId).lookup info.addr = some owner := by
  constructor
  · rintro ⟨info, hmem, ⟨owner, queueType⟩, hlook, hne⟩
    exact ⟨info, hmem, _, h.lookup_kept_iff.mpr ⟨hne, (h.indexed _ _ _).mp hlook⟩⟩
  · rintro ⟨info, hmem, ⟨owner, queueType⟩, hlook⟩
    obtain ⟨hne, hlists⟩ := h.lookup_kept_iff.mp hlook
    exact ⟨info, hmem, _, (h.indexed _ _ _).mpr hlists, hne⟩

theorem Inv.registered (h : Inv r) {actor : ActorRegistration} (nowNs : UInt64)
    (hfree : ∀ info ∈ actor.queues, (r.kept actor.actorId).lookup info.addr = none)
    (hnodup : (actor.queues.map (·.addr)).Nodup) :
    Inv { queues := insertQueues actor.actorId (r.kept actor.actorId) actor.queues
          actors := r.actors.insert actor.actorId ⟨actor, nowNs, .healthy⟩ } := by
  refine ⟨agrees_of_indexed ?_ (h.once_insert hnodup), ?_⟩
  · intro addr owner queueType
    rw [lists_insert]
    by_cases hmem : addr ∈ actor.queues.map (·.addr)
    · obtain ⟨info, hinfo, rfl⟩ := List.mem_map.mp hmem
      constructor
      · intro hlook
        rw [lookup_insertQueues_of_nodup hnodup hinfo] at hlook
        cases hlook
        exact Or.inl ⟨rfl, hinfo⟩
      · rintro (⟨rfl, hlisted⟩ | ⟨hne, hlists⟩)
        · exact lookup_insertQueues_of_nodup hnodup hlisted
        · have hsome := h.agrees.lookup_kept_iff.mpr ⟨hne, hlists⟩
          rw [hfree info hinfo] at hsome
          cases hsome
    · rw [lookup_insertQueues_of_notMem hmem, h.agrees.lookup_kept_iff]
      constructor
      · exact Or.inr
      · rintro (⟨_, hlisted⟩ | hkept)
        · exact absurd (List.mem_map_of_mem hlisted) hmem
        · exact hkept
  · intro other found hfound
    refine h.filed_insert ?_ hfound
    rfl

theorem Inv.queueRegistered (h : Inv r) {actorId : String} {record : ActorRecord}
    {queue : QueueInfo} (hrecord : r.actors.lookup actorId = some record)
    (hfree : r.queues.lookup queue.addr = none) :
    Inv { queues := r.queues.insert queue.addr ⟨actorId, queue.queueType⟩
          actors := r.actors.insert actorId { record with
            registration := { record.registration with
              queues := record.registration.queues ++ [queue] } } } := by
  have hunlisted : ∀ owner queueType, ¬ Lists r owner queue.addr queueType := by
    intro owner queueType hlists
    have hsome := (h.agrees.indexed _ _ _).mpr hlists
    rw [hfree] at hsome
    cases hsome
  have hown : ∀ addr queueType, ⟨addr, queueType⟩ ∈ record.registration.queues ↔
      Lists r actorId addr queueType := by
    intro addr queueType
    simp only [Lists, hrecord, Option.some.injEq, exists_eq_left']
  refine ⟨agrees_of_indexed ?_ (h.once_insert ?_), ?_⟩
  · intro addr owner queueType
    rw [lists_insert, List.mem_append, List.mem_singleton, hown]
    by_cases heq : addr = queue.addr
    · subst heq
      rw [AList.lookup_insert]
      constructor
      · intro hlook
        cases hlook
        exact Or.inl ⟨rfl, Or.inr rfl⟩
      · rintro (⟨rfl, hlists | hnew⟩ | ⟨_, hlists⟩)
        · exact absurd hlists (hunlisted _ _)
        · rw [← hnew]
        · exact absurd hlists (hunlisted _ _)
    · rw [AList.lookup_insert_ne heq, h.agrees.indexed]
      constructor
      · intro hlists
        by_cases howner : owner = actorId
        · exact Or.inl ⟨howner, Or.inl (howner ▸ hlists)⟩
        · exact Or.inr ⟨howner, hlists⟩
      · rintro (⟨rfl, hlists | hnew⟩ | ⟨_, hlists⟩)
        · exact hlists
        · rw [← hnew] at heq
          exact absurd rfl heq
        · exact hlists
  · have hnodup := h.agrees.once actorId
    simp only [queuesOf, hrecord, Option.elim_some] at hnodup
    rw [List.map_append, List.map_singleton, List.nodup_append]
    refine ⟨hnodup, List.nodup_singleton _, ?_⟩
    intro addr haddr addr' haddr' heq
    obtain ⟨info, hinfo, rfl⟩ := List.mem_map.mp haddr
    rw [List.mem_singleton.mp haddr'] at heq
    exact hunlisted actorId info.queueType (heq ▸ (hown _ _).mp hinfo)
  · intro other found hfound
    refine h.filed_insert ?_ hfound
    exact h.filed actorId record hrecord

theorem Inv.unregistered (h : Inv r) {actorId : String} {record : ActorRecord}
    (hrecord : r.actors.lookup actorId = some record) :
    Inv { actors := r.actors.erase actorId
          queues := removeQueues r.queues record.registration.queues } := by
  have hkept : removeQueues r.queues record.registration.queues = r.kept actorId := by
    simp only [kept, queuesOf, hrecord, Option.elim_some]
  rw [hkept]
  have hlists : ∀ owner addr queueType,
      Lists ⟨r.actors.erase actorId, r.kept actorId⟩ owner addr queueType ↔
        owner ≠ actorId ∧ Lists r owner addr queueType := by
    intro owner addr queueType
    unfold Lists
    rw [lookup_erase_eq]
    by_cases heq : owner = actorId
    · simp [heq]
    · simp [heq]
  refine ⟨agrees_of_indexed ?_ ?_, ?_⟩
  · intro addr owner queueType
    rw [hlists]
    exact h.agrees.lookup_kept_iff
  · intro owner
    simp only [queuesOf, lookup_erase_eq]
    split
    · exact List.nodup_nil
    · exact h.agrees.once owner
  · intro actorId' record' hrecord'
    rw [lookup_erase_eq] at hrecord'
    split at hrecord'
    · cases hrecord'
    · exact h.filed actorId' record' hrecord'

theorem Inv.register (h : Inv r) {actor : ActorRegistration} {nowNs : UInt64}
    (hg : RegistersCleanly r (.register actor nowNs)) : Inv (r.register actor nowNs).1 := by
  rcases r.register_cases actor nowNs with ⟨info, hmem, owner, howner, error, heq⟩ | ⟨hfree, heq⟩
  · -- refused with nothing to remove: the registry is as before
    have hconflict := h.agrees.conflicts_iff.mpr ⟨info, hmem, owner, howner⟩
    have hkept : r.kept actor.actorId = r.queues := by
      rw [kept, hg.1 hconflict]
      rfl
    rw [heq, hkept]
    exact h
  · have hno : ¬ Conflicts r actor := by
      intro hconflict
      obtain ⟨info, hmem, owner, howner⟩ := h.agrees.conflicts_iff.mp hconflict
      rw [hfree info hmem] at howner
      cases howner
    rw [heq]
    exact h.registered nowNs hfree (hg.2 hno)

theorem Inv.recordHeartbeat (h : Inv r) (actorId : String) (nowNs : UInt64) :
    Inv (r.recordHeartbeat actorId nowNs).1 := by
  unfold ActorRegistry.recordHeartbeat
  cases hrecord : r.actors.lookup actorId with
  | none => exact h
  | some record =>
    refine h.congr rfl ?_
    intro other
    by_cases heq : other = actorId
    · subst heq
      rw [AList.lookup_insert, hrecord]
      rfl
    · rw [AList.lookup_insert_ne heq]

theorem Inv.updateHealth (h : Inv r) (nowNs timeoutNs : UInt64) :
    Inv (r.updateHealth nowNs timeoutNs) := by
  refine h.congr rfl ?_
  intro actorId
  simp only [ActorRegistry.updateHealth, lookup_mapValues, Option.map_map]
  congr 1
  funext record
  simp only [Function.comp]
  split <;> rfl

theorem Inv.step (h : Inv r) {i : Step} (hg : RegistersCleanly r i) : Inv (step r i) := by
  cases i with
  | register actor nowNs => exact h.register hg
  | registerQueue actorId queue =>
    rcases r.registerQueue_cases actorId queue with heq | ⟨record, hrecord, hfree, heq⟩
    · simp only [RegistryIndex.step, heq]
      exact h
    · simp only [RegistryIndex.step, heq]
      exact h.queueRegistered hrecord hfree
  | unregister actorId =>
    cases hrecord : r.actors.lookup actorId with
    | none =>
      simp only [RegistryIndex.step, unregister, hrecord]
      exact h
    | some record =>
      simp only [RegistryIndex.step, unregister, hrecord]
      exact h.unregistered hrecord
  | recordHeartbeat actorId nowNs => exact h.recordHeartbeat actorId nowNs
  | updateHealth nowNs timeoutNs => exact h.updateHealth nowNs timeoutNs

/-- A `register` outside the guard leaves the indexes in disagreement at once. -/
theorem Inv.not_agrees (h : Inv r) {i : Step} (hg : ¬ RegistersCleanly r i) :
    ¬ Agrees (RegistryIndex.step r i) := by
  cases i with
  | register actor nowNs =>
    intro hafter
    apply hg
    constructor
    · intro hconflict
      rcases r.register_cases actor nowNs with ⟨_, _, _, _, _, heq⟩ | ⟨hfree, _⟩
      · simp only [RegistryIndex.step, heq] at hafter
        refine List.eq_nil_iff_forall_not_mem.mpr ?_
        rintro ⟨addr, queueType⟩ hmem
        -- still listed by the actor, no longer in the queue map
        have hlists := mem_queuesOf.mp hmem
        have hsome := (hafter.indexed addr actor.actorId queueType).mpr hlists
        rw [lookup_kept, if_pos (mem_addrs.mpr ⟨queueType, hlists⟩)] at hsome
        cases hsome
      · obtain ⟨info, hmem, owner, howner⟩ := h.agrees.conflicts_iff.mp hconflict
        rw [hfree info hmem] at howner
        cases howner
    · intro hno
      rcases r.register_cases actor nowNs with ⟨info, hmem, owner, howner, _⟩ | ⟨_, heq⟩
      · exact absurd (h.agrees.conflicts_iff.mpr ⟨info, hmem, owner, howner⟩) hno
      · simp only [RegistryIndex.step, heq] at hafter
        have honce := hafter.once actor.actorId
        rwa [queuesOf_insert, if_pos rfl] at honce
  | registerQueue => exact absurd trivial hg
  | unregister => exact absurd trivial hg
  | recordHeartbeat => exact absurd trivial hg
  | updateHealth => exact absurd trivial hg

theorem inv_new : Inv ActorRegistry.new := by
  refine ⟨agrees_of_indexed ?_ ?_, ?_⟩
  · intro addr owner queueType
    constructor
    · intro hlook
      cases hlook
    · rintro ⟨record, hrecord, _⟩
      cases hrecord
  · intro owner
    exact List.nodup_nil
  · intro actorId record hrecord
    cases hrecord

end Steps

/-- The two indexes agree, and with them all queries, along exactly the runs
whose `register` calls are clean. -/
theorem indexes_agree_iff (is : List Step) :
    Transition.Always step (fun r => Agrees r ∧ QueriesAgree r) ActorRegistry.new is ↔
      Transition.Guarded step RegistersCleanly ActorRegistry.new is :=
  Transition.always_iff_guarded (fun _ h => ⟨h.agrees, .of_inv h⟩) (fun _ _ h hg => h.step hg)
    (fun _ _ h hg hafter => h.not_agrees hg hafter.1) inv_new is

/-- A gateway takes over an address of another actor while re-registering. -/
def failedReregistration : List Step :=
  [.register ⟨"a", "market", [⟨"q1", "market"⟩]⟩ 1, .register ⟨"b", "market", [⟨"q2", "market"⟩]⟩ 2,
   .register ⟨"a", "market", [⟨"q1", "market"⟩, ⟨"q2", "market"⟩]⟩ 3]

/-- The call is refused, yet `q1` is gone from the queue map. -/
theorem failed_reregistration_disagrees :
    ¬ Transition.Always step (fun r => Agrees r ∧ QueriesAgree r) ActorRegistry.new
      failedReregistration := by
  intro h
  have hend := h.last.1
  have hlists : Lists (Transition.run step ActorRegistry.new failedReregistration)
      "a" "q1" "market" := ⟨_, rfl, by decide⟩
  have hsome := (hend.indexed _ _ _).mpr hlists
  revert hsome
  decide

end Nnxt.RegistryIndex
