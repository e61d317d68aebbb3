import Nnxt.RegistryFrame
import Nnxt.MasterServer

/-!
# Answers to `ConnectTrade`

The server takes one actor of the type, whichever the map yields first, and only
then looks for its queues. An actor of the type without them hides one that has
them, depending on the iteration order.
-/

namespace Nnxt.TradeConnections

set_option autoImplicit false

open HashMap ActorRegistry RegistryIndex Transition

/-- Every actor is filed under the id it has registered with. -/
def Filed (r : ActorRegistry) : Prop :=
  ∀ actorId record, r.actors.lookup actorId = some record → record.registration.actorId = actorId

def Registered (r : ActorRegistry) (actorType actorId : String) : Prop :=
  ∃ record, r.actors.lookup actorId = some record ∧ record.registration.actorType = actorType

def Owns (r : ActorRegistry) (actorId queueType : String) : Prop :=
  ∃ addr, r.queues.lookup addr = some ⟨actorId, queueType⟩

def OwnsBoth (r : ActorRegistry) (actorId : String) : Prop :=
  Owns r actorId "order-event" ∧ Owns r actorId "trade-event"

/-- Over every iteration order of the two maps: there is a triple iff an actor of the
type has both queues, and then it names such an actor and two queues of it. -/
def SoundAndComplete (r : ActorRegistry) (targetType : String) : Prop :=
  ∀ (m : MasterServer) (actorId : String) (nowNs : UInt64) (socket : SocketOutcome),
    Same r.actors m.registry.actors → Same r.queues m.registry.queues →
    let response := (m.handleRequest (.connectTrade targetType actorId) nowNs socket).2.1
    ((∃ g o t, response = .connectTrade g o t) ↔ ∃ g, Registered r targetType g ∧ OwnsBoth r g) ∧
    ∀ g o t, response = .connectTrade g o t →
      Registered r targetType g ∧ OwnsBoth r g ∧
        r.lookupQueue o = .ok (g, "order-event") ∧ r.lookupQueue t = .ok (g, "trade-event")

/-- The actors of the type have both queues, all of them or none. -/
def AllOrNone (r : ActorRegistry) (targetType : String) : Prop :=
  (∃ g, Registered r targetType g ∧ OwnsBoth r g) →
    ∀ g, Registered r targetType g → OwnsBoth r g

section Filing
variable {r : ActorRegistry}

theorem Filed.insert (h : Filed r) {actorId : String} {record : ActorRecord}
    (hrecord : record.registration.actorId = actorId) {queues : Map String QueueOwner} :
    Filed ⟨r.actors.insert actorId record, queues⟩ := by
  intro other found hfound
  rw [lookup_insert_eq] at hfound
  split at hfound
  · rename_i heq
    cases hfound
    rw [hrecord, heq]
  · exact h other found hfound

theorem Filed.register (h : Filed r) (actor : ActorRegistration) (nowNs : UInt64) :
    Filed (r.register actor nowNs).1 := by
  rcases r.register_cases actor nowNs with ⟨_, _, _, _, error, hfail⟩ | ⟨_, hok⟩
  · rw [hfail]
    exact h
  · rw [hok]
    apply h.insert
    rfl

theorem Filed.registerQueue (h : Filed r) (actorId : String) (queue : QueueInfo) :
    Filed (r.registerQueue actorId queue).1 := by
  rcases r.registerQueue_cases actorId queue with hsame | ⟨record, hrecord, _, hok⟩
  · rw [hsame]
    exact h
  · rw [hok]
    apply h.insert
    exact h actorId record hrecord

theorem Filed.unregister (h : Filed r) (actorId : String) : Filed (r.unregister actorId).1 := by
  unfold ActorRegistry.unregister
  split
  · exact h
  · intro other found hfound
    rw [lookup_erase_eq] at hfound
    split at hfound
    · cases hfound
    · exact h other found hfound

theorem Filed.recordHeartbeat (h : Filed r) (actorId : String) (nowNs : UInt64) :
    Filed (r.recordHeartbeat actorId nowNs).1 := by
  unfold ActorRegistry.recordHeartbeat
  split
  · exact h
  · rename_i record hrecord
    apply h.insert
    exact h actorId record hrecord

theorem Filed.updateHealth (h : Filed r) (nowNs timeoutNs : UInt64) :
    Filed (r.updateHealth nowNs timeoutNs) := by
  intro actorId record hrecord
  rw [ActorRegistry.updateHealth, lookup_mapValues, Option.map_eq_some_iff] at hrecord
  obtain ⟨old, hold, rfl⟩ := hrecord
  split
  · exact h actorId old hold
  · exact h actorId old hold

theorem filed_run (is : List Step) : Filed (run step ActorRegistry.new is) := by
  have hnew : Filed ActorRegistry.new := fun _ _ h => by cases h
  have keep : ∀ r i, Filed r → Filed (step r i) := by
    intro r i h
    cases i with
    | register actor nowNs => exact h.register actor nowNs
    | registerQueue actorId queue => exact h.registerQueue actorId queue
    | unregister actorId => exact h.unregister actorId
    | recordHeartbeat actorId nowNs => exact h.recordHeartbeat actorId nowNs
    | updateHealth nowNs timeoutNs => exact h.updateHealth nowNs timeoutNs
  exact always_of_step keep hnew is is (List.prefix_refl is)

end Filing

section Lookups
variable {r r' : ActorRegistry} {targetType g o t : String}

theorem registered_congr (h : Same r.actors r'.actors) (actorType actorId : String) :
    Registered r actorType actorId ↔ Registered r' actorType actorId := by
  rw [Registered, Registered, h.lookup_eq]

theorem owns_congr (h : Same r.queues r'.queues) (actorId queueType : String) :
    Owns r actorId queueType ↔ Owns r' actorId queueType := by
  simp only [Owns, h.lookup_eq]

theorem Filed.congr (hf : Filed r) (h : Same r.actors r'.actors) : Filed r' := by
  intro actorId record hrecord
  rw [← h.lookup_eq] at hrecord
  exact hf actorId record hrecord

theorem registered_of_findActorByType (hf : Filed r) (h : r.findActorByType targetType = .ok g) :
    Registered r targetType g := by
  unfold findActorByType at h
  split at h
  · rename_i record hfind
    cases h
    obtain ⟨actorId, hrecord⟩ := mem_values_iff.mp (List.mem_of_find?_eq_some hfind)
    have hkeep := List.find?_some hfind
    rw [hf actorId record hrecord]
    exact ⟨record, hrecord, of_decide_eq_true hkeep⟩
  · cases h

theorem findActorByType_found (h : Registered r targetType g) :
    ∃ g', r.findActorByType targetType = .ok g' := by
  obtain ⟨record, hrecord, htype⟩ := h
  unfold findActorByType
  split
  · exact ⟨_, rfl⟩
  · rename_i hnone
    have hskip := List.find?_eq_none.mp hnone record (mem_values_iff.mpr ⟨g, hrecord⟩)
    rw [htype] at hskip
    simp at hskip

/-- Some iteration order yields a given actor of the type first. -/
theorem exists_order_of_registered (hf : Filed r) (h : Registered r targetType g) :
    ∃ actors, Same r.actors actors ∧
      findActorByType ⟨actors, r.queues⟩ targetType = .ok g := by
  obtain ⟨record, hrecord, htype⟩ := h
  have hperm := entries_perm_cons_erase hrecord
  refine ⟨⟨⟨g, record⟩ :: (r.actors.erase g).entries, ?_⟩, hperm, ?_⟩
  · exact (List.perm_nodupKeys hperm).mp r.actors.nodupKeys
  · simp only [findActorByType, values, List.map_cons]
    rw [List.find?_cons_of_pos (by simpa using htype)]
    exact congrArg Except.ok (hf g record hrecord)

theorem owns_iff_found (r : ActorRegistry) (actorId queueType : String) :
    Owns r actorId queueType ↔ ∃ addr, r.findQueueByOwnerType actorId queueType = .ok addr := by
  constructor
  · intro h
    obtain ⟨addr, haddr⟩ := h
    exact findQueueByOwnerType_found haddr
  · intro h
    obtain ⟨addr, haddr⟩ := h
    exact ⟨addr, lookup_of_findQueueByOwnerType haddr⟩

theorem connectTrade_eq_iff (m : MasterServer) (targetType g o t : String) :
    m.connectTrade targetType = .connectTrade g o t ↔
      m.registry.findActorByType targetType = .ok g ∧
      m.registry.findQueueByOwnerType g "order-event" = .ok o ∧
      m.registry.findQueueByOwnerType g "trade-event" = .ok t := by
  unfold MasterServer.connectTrade
  cases m.registry.findActorByType targetType with
  | error error => simp
  | ok found =>
    simp only [Except.ok.injEq]
    cases ho : m.registry.findQueueByOwnerType found "order-event" with
    | error error =>
      simp only [reduceCtorEq, false_iff]
      rintro ⟨rfl, hfound, -⟩
      rw [ho] at hfound
      cases hfound
    | ok orders =>
      cases ht : m.registry.findQueueByOwnerType found "trade-event" with
      | error error =>
        simp only [reduceCtorEq, false_iff]
        rintro ⟨rfl, -, hfound⟩
        rw [ht] at hfound
        cases hfound
      | ok trades =>
        simp only [Response.connectTrade.injEq]
        constructor
        · rintro ⟨rfl, rfl, rfl⟩
          exact ⟨rfl, ho, ht⟩
        · rintro ⟨rfl, horders, htrades⟩
          rw [ho] at horders
          rw [ht] at htrades
          exact ⟨rfl, Except.ok.inj horders, Except.ok.inj htrades⟩

end Lookups

section Law
variable {r : ActorRegistry} {targetType : String}

/-- What the answer says is true in any order. -/
theorem sound_of_filed (hf : Filed r) (m : MasterServer) (hactors : Same r.actors m.registry.actors)
    (hqueues : Same r.queues m.registry.queues) {g o t : String}
    (h : m.connectTrade targetType = .connectTrade g o t) :
    Registered r targetType g ∧ OwnsBoth r g ∧
      r.lookupQueue o = .ok (g, "order-event") ∧ r.lookupQueue t = .ok (g, "trade-event") := by
  obtain ⟨hg, ho, ht⟩ := (connectTrade_eq_iff m targetType g o t).mp h
  have horders := lookup_of_findQueueByOwnerType ho
  have htrades := lookup_of_findQueueByOwnerType ht
  rw [← hqueues.lookup_eq] at horders htrades
  refine ⟨?_, ⟨⟨o, horders⟩, ⟨t, htrades⟩⟩, ?_, ?_⟩
  · rw [registered_congr hactors]
    exact registered_of_findActorByType (hf.congr hactors) hg
  · exact RegistryFrame.lookupQueue_eq_ok_iff.mpr horders
  · exact RegistryFrame.lookupQueue_eq_ok_iff.mpr htrades

theorem answered_of_allOrNone (hf : Filed r) (hall : AllOrNone r targetType) (m : MasterServer)
    (hactors : Same r.actors m.registry.actors) (hqueues : Same r.queues m.registry.queues)
    (hsome : ∃ g, Registered r targetType g ∧ OwnsBoth r g) :
    ∃ g o t, m.connectTrade targetType = .connectTrade g o t := by
  obtain ⟨found, hfound, hboth⟩ := hsome
  obtain ⟨g, hg⟩ := findActorByType_found ((registered_congr hactors _ _).mp hfound)
  have hregistered := registered_of_findActorByType (hf.congr hactors) hg
  obtain ⟨horders, htrades⟩ := hall ⟨found, hfound, hboth⟩ g
    ((registered_congr hactors _ _).mpr hregistered)
  rw [owns_congr hqueues, owns_iff_found] at horders htrades
  obtain ⟨o, ho⟩ := horders
  obtain ⟨t, ht⟩ := htrades
  exact ⟨g, o, t, (connectTrade_eq_iff m targetType g o t).mpr ⟨hg, ho, ht⟩⟩

/-- An actor of the type without the queues may come first. -/
theorem allOrNone_of_complete (hf : Filed r) (h : SoundAndComplete r targetType) :
    AllOrNone r targetType := by
  intro hsome g hg
  obtain ⟨actors, hsame, hfirst⟩ := exists_order_of_registered hf hg
  obtain ⟨hcomplete, hsound⟩ :=
    h ⟨⟨actors, r.queues⟩, 0⟩ "" 0 .sent hsame (List.Perm.refl _)
  obtain ⟨g', o, t, hanswer⟩ := hcomplete.mpr hsome
  obtain ⟨hfirst', -, -⟩ := (connectTrade_eq_iff _ targetType g' o t).mp hanswer
  have hsameActor : g' = g := Except.ok.inj (hfirst'.symm.trans hfirst)
  rw [← hsameActor]
  exact (hsound g' o t hanswer).2.1

/-- In every reachable registry the answer is right in every iteration order iff the
registered actors of the type have both queues, all of them or none. -/
theorem connect_trade_iff_all_or_none (is : List Step) (targetType : String) :
    SoundAndComplete (run step ActorRegistry.new is) targetType ↔
      AllOrNone (run step ActorRegistry.new is) targetType := by
  have hf := filed_run is
  constructor
  · exact allOrNone_of_complete hf
  · intro hall m actorId nowNs socket hactors hqueues
    refine ⟨⟨?_, ?_⟩, ?_⟩
    · rintro ⟨g, o, t, hanswer⟩
      have hsound := sound_of_filed hf m hactors hqueues hanswer
      exact ⟨g, hsound.1, hsound.2.1⟩
    · exact answered_of_allOrNone hf hall m hactors hqueues
    · intro g o t hanswer
      exact sound_of_filed hf m hactors hqueues hanswer

/-- Two gateways of one type, the queues of the second not registered yet. -/
def halfStarted : List Step :=
  [.register ⟨"a", "trade", [⟨"a/orders", "order-event"⟩, ⟨"a/trades", "trade-event"⟩]⟩ 0,
   .register ⟨"b", "trade", []⟩ 0]

/-- The gateway that is ready is not found when the other one comes first. -/
theorem ready_gateway_not_found :
    (∃ g, Registered (run step ActorRegistry.new halfStarted) "trade" g ∧
      OwnsBoth (run step ActorRegistry.new halfStarted) g) ∧
    (((⟨run step ActorRegistry.new halfStarted, 0⟩ : MasterServer).handleRequest
        (.connectTrade "trade" "s") 0 .sent).2.1 =
      .error (.registry (.queueTypeNotFound "b" "order-event"))) ∧
    ¬ SoundAndComplete (run step ActorRegistry.new halfStarted) "trade" := by
  have hready : Registered (run step ActorRegistry.new halfStarted) "trade" "a" ∧
      OwnsBoth (run step ActorRegistry.new halfStarted) "a" :=
    ⟨⟨_, rfl, rfl⟩, ⟨"a/orders", by decide⟩, ⟨"a/trades", by decide⟩⟩
  refine ⟨⟨"a", hready⟩, by decide, ?_⟩
  intro h
  have hall := allOrNone_of_complete (filed_run halfStarted) h ⟨"a", hready⟩ "b" ⟨_, rfl, rfl⟩
  obtain ⟨found, hfound⟩ := (owns_iff_found _ _ _).mp hall.1
  have hmissing : findQueueByOwnerType (run step ActorRegistry.new halfStarted) "b" "order-event" =
      .error (.queueTypeNotFound "b" "order-event") := by decide
  rw [hmissing] at hfound
  cases hfound

end Law

end Nnxt.TradeConnections
