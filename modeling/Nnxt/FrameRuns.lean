import Nnxt.RegistryFrame

/-!
# Runs in which the actors stay apart

A record and the queue map part ways only in a refused `register`. Until then
every listed address belongs to the actor that lists it.
-/

namespace Nnxt.RegistryFrame

set_option autoImplicit false

open HashMap ActorRegistry RegistryIndex

section Runs
variable {r : ActorRegistry}

/-- Every address on a record is attributed to the actor of the record. -/
def KeepsListed (r : ActorRegistry) : Prop :=
  ∀ actorId, ∀ info ∈ r.queuesOf actorId, ∃ queueType,
    r.queues.lookup info.addr = some ⟨actorId, queueType⟩

theorem KeepsListed.listsOwn (h : KeepsListed r) (actorId : String) : ListsOwn r actorId := by
  intro info hmem owner howner
  obtain ⟨queueType, hlook⟩ := h actorId info hmem
  rw [hlook] at howner
  cases howner
  rfl

theorem KeepsListed.removesOwn (h : KeepsListed r) (i : Step) : RemovesOwn r i := by
  cases i with
  | register actor nowNs => exact h.listsOwn actor.actorId
  | unregister actorId => exact h.listsOwn actorId
  | registerQueue => trivial
  | recordHeartbeat => trivial
  | updateHealth => trivial

/-- What another actor lists survives a removal. -/
theorem KeepsListed.kept (h : KeepsListed r) {actorId other : String} (hne : other ≠ actorId)
    {info : QueueInfo} (hmem : info ∈ r.queuesOf other) :
    ∃ queueType, (r.kept actorId).lookup info.addr = some ⟨other, queueType⟩ := by
  obtain ⟨queueType, hlook⟩ := h other info hmem
  exact ⟨queueType, listsOwn_iff.mp (h.listsOwn actorId) info.addr _ hne hlook⟩

theorem KeepsListed.congr {r' : ActorRegistry} (h : KeepsListed r) (hqueues : r'.queues = r.queues)
    (hlisted : ∀ actorId, r'.queuesOf actorId = r.queuesOf actorId) : KeepsListed r' := by
  intro actorId info hmem
  rw [hlisted] at hmem
  rw [hqueues]
  exact h actorId info hmem

theorem queuesOf_recordHeartbeat (r : ActorRegistry) (actorId : String) (nowNs : UInt64)
    (other : String) : (r.recordHeartbeat actorId nowNs).1.queuesOf other = r.queuesOf other := by
  unfold recordHeartbeat
  cases hrecord : r.actors.lookup actorId with
  | none => rfl
  | some record =>
    simp only [queuesOf, lookup_insert_eq]
    split
    · rename_i heq
      rw [heq, hrecord]
      rfl
    · rfl

theorem queuesOf_updateHealth (r : ActorRegistry) (nowNs timeoutNs : UInt64) (other : String) :
    (r.updateHealth nowNs timeoutNs).queuesOf other = r.queuesOf other := by
  simp only [queuesOf, updateHealth, lookup_mapValues]
  cases r.actors.lookup other with
  | none => rfl
  | some record =>
    simp only [Option.map_some, Option.elim_some]
    split <;> rfl

theorem KeepsListed.register (h : KeepsListed r) {actor : ActorRegistration} {nowNs : UInt64}
    (hg : RefusesInPlace r (.register actor nowNs)) : KeepsListed (r.register actor nowNs).1 := by
  by_cases hrefused : Refused r actor
  · obtain ⟨error, hregister⟩ := register_of_refused hrefused nowNs
    have hsame : r.kept actor.actorId = r.queues := kept_eq_iff.mpr (hg hrefused)
    rw [hregister]
    exact h.congr hsame fun _ => rfl
  · intro other info hmem
    have hqueues := register_of_not_refused hrefused nowNs
    by_cases heq : other = actor.actorId
    · rw [hqueues, queuesOf_insert, if_pos heq] at hmem
      rw [hqueues, heq]
      exact lookup_insertQueues_of_mem (List.mem_map_of_mem hmem)
    · rw [hqueues, queuesOf_insert, if_neg heq] at hmem
      obtain ⟨queueType, hlook⟩ := h.kept heq hmem
      exact ⟨queueType, (lookup_register heq).mpr hlook⟩

theorem KeepsListed.registerQueue (h : KeepsListed r) (actorId : String) (queue : QueueInfo) :
    KeepsListed (r.registerQueue actorId queue).1 := by
  intro other info hmem
  rcases r.registerQueue_cases actorId queue with hsame | ⟨record, hrecord, hfree, hnew⟩
  · rw [hsame] at hmem ⊢
    exact h other info hmem
  · have hold : info ∈ r.queuesOf other ∨ (other = actorId ∧ info = queue) := by
      rw [hnew, queuesOf_insert] at hmem
      split at hmem
      · rename_i heq
        have hlisted : r.queuesOf other = record.registration.queues := by
          rw [heq, queuesOf, hrecord, Option.elim_some]
        rw [hlisted]
        rcases List.mem_append.mp hmem with hmem | hmem
        · exact Or.inl hmem
        · exact Or.inr ⟨heq, List.mem_singleton.mp hmem⟩
      · exact Or.inl hmem
    rcases hold with hold | ⟨rfl, rfl⟩
    · obtain ⟨queueType, hlook⟩ := h other info hold
      exact ⟨queueType, lookup_registerQueue hlook⟩
    · rw [hnew, AList.lookup_insert]
      exact ⟨info.queueType, rfl⟩

theorem KeepsListed.unregister (h : KeepsListed r) (actorId : String) :
    KeepsListed (r.unregister actorId).1 := by
  intro other info hmem
  have hother : other ≠ actorId ∧ info ∈ r.queuesOf other := by
    cases hrecord : r.actors.lookup actorId with
    | none =>
      simp only [ActorRegistry.unregister, hrecord] at hmem
      refine ⟨?_, hmem⟩
      intro heq
      rw [heq, queuesOf, hrecord] at hmem
      cases hmem
    | some record =>
      simp only [ActorRegistry.unregister, hrecord, queuesOf, lookup_erase_eq] at hmem
      split at hmem
      · cases hmem
      · rename_i hne
        exact ⟨hne, hmem⟩
  rw [queues_unregister]
  exact h.kept hother.1 hother.2

theorem KeepsListed.step (h : KeepsListed r) {i : Step} (hg : RefusesInPlace r i) :
    KeepsListed (RegistryIndex.step r i) := by
  cases i with
  | register actor nowNs => exact h.register hg
  | registerQueue actorId queue => exact h.registerQueue actorId queue
  | unregister actorId => exact h.unregister actorId
  | recordHeartbeat actorId nowNs =>
    exact h.congr (queues_recordHeartbeat r actorId nowNs) (queuesOf_recordHeartbeat r actorId nowNs)
  | updateHealth nowNs timeoutNs => exact h.congr rfl (queuesOf_updateHealth r nowNs timeoutNs)

theorem keepsListed_new : KeepsListed ActorRegistry.new := by
  intro actorId info hmem
  cases hmem

end Runs

/-- As long as no refused call has changed anything, the actors are apart. -/
theorem removesOwn_of_refusesInPlace {is : List Step}
    (h : Transition.Guarded step RefusesInPlace ActorRegistry.new is) :
    Transition.Guarded step RemovesOwn ActorRegistry.new is := by
  intro js i hjs
  have keep : ∀ r i, KeepsListed r → RefusesInPlace r i → KeepsListed (step r i) :=
    fun _ _ hr hg => hr.step hg
  have hlisted := Transition.always_of_guarded keep keepsListed_new h
  exact (hlisted js ((List.prefix_append js [i]).trans hjs)).removesOwn i

/-- Along any run, the calls that leave the queues of the others alone are those
by actors whose record lists nothing of theirs; a run without a refused call
that removed something has no others. -/
theorem others_left_alone_iff (is : List Step) :
    (Transition.Guarded step LeavesOthers ActorRegistry.new is ↔
      Transition.Guarded step RemovesOwn ActorRegistry.new is) ∧
    (Transition.Guarded step RefusesInPlace ActorRegistry.new is →
      Transition.Guarded step LeavesOthers ActorRegistry.new is) := by
  have hiff : Transition.Guarded step LeavesOthers ActorRegistry.new is ↔ _ :=
    Transition.guarded_congr leavesOthers_iff ActorRegistry.new is
  exact ⟨hiff, fun h => hiff.mpr (removesOwn_of_refusesInPlace h)⟩

/-- After its refused call `a` still lists `q1`, which passes to `b`. -/
def takenOver : List Step :=
  failedReregistration ++ [.registerQueue "b" ⟨"q1", "market"⟩]

theorem unregister_removes_taken_over :
    ¬ ∀ is : List Step, Transition.Guarded step LeavesOthers ActorRegistry.new is := by
  intro h
  have hframe := h (takenOver ++ [.unregister "a"]) takenOver (.unregister "a") (List.prefix_refl _)
    "a" rfl "q1" "b" "market" (by decide) rfl
  cases hframe

/-- Along any run, the failed calls that change nothing are those that had
nothing to remove. -/
theorem failed_unchanged_iff (is : List Step) :
    Transition.Guarded step FailsUnchanged ActorRegistry.new is ↔
      Transition.Guarded step RefusesInPlace ActorRegistry.new is :=
  Transition.guarded_congr failsUnchanged_iff ActorRegistry.new is

theorem refused_register_unlists_queue :
    ¬ ∀ is : List Step, Transition.Guarded step FailsUnchanged ActorRegistry.new is := by
  intro h
  have hsame := h failedReregistration (failedReregistration.take 2) _ (List.prefix_refl _) _ rfl
  have hlook := congrArg (fun r => r.lookupQueue "q1") hsame
  cases hlook

end Nnxt.RegistryFrame
