import Nnxt.ReportedHealth

/-!
# Runs of the master

Each request is followed by what it does to the records; from there the records
agree with the answers along every run, and so does every list of actors.
-/

namespace Nnxt.ReportedHealth

set_option autoImplicit false

open HashMap FixedWidth

section Requests
variable {timeoutNs : Nat} {served : List Served} {m : MasterServer} {nowNs : UInt64}

/-- The answer the master adds for a request. -/
def answerOf (m : MasterServer) (request : Request) (nowNs : UInt64) (socket : SocketOutcome) :
    Served :=
  ⟨request, nowNs, (m.handleRequest request nowNs socket).2.1⟩

theorem Tracks.register (h : Tracks timeoutNs nowNs.toNat m.registry.actors served)
    (actor : ActorRegistration) (socket : SocketOutcome) :
    Tracks timeoutNs nowNs.toNat (m.handleRequest (.register actor) nowNs socket).1.registry.actors
      (served ++ [answerOf m (.register actor) nowNs socket]) := by
  simp only [answerOf, MasterServer.handleRequest]
  rcases m.registry.register_cases actor nowNs with ⟨_, _, _, _, error, heq⟩ | ⟨_, heq⟩
  · rw [heq]
    exact h.silent fun _ => ⟨fun _ => rfl, fun _ => rfl⟩
  · rw [heq]
    refine h.insert ?_ (if_pos rfl) ⟨rfl, ?_, Nat.le_refl _, fun hstatus => by cases hstatus⟩
    · intro other hne
      exact ⟨fun _ => if_neg (Ne.symm hne), fun _ => if_neg (Ne.symm hne)⟩
    · rw [latestBeat_append]
      exact if_pos rfl

theorem Tracks.unregister (h : Tracks timeoutNs nowNs.toNat m.registry.actors served)
    (actorId : String) (socket : SocketOutcome) :
    Tracks timeoutNs nowNs.toNat (m.handleRequest (.unregister actorId) nowNs socket).1.registry.actors
      (served ++ [answerOf m (.unregister actorId) nowNs socket]) := by
  simp only [answerOf, MasterServer.handleRequest, ActorRegistry.unregister]
  cases hrecord : m.registry.actors.lookup actorId with
  | none => exact h.silent fun _ => ⟨fun _ => rfl, fun _ => rfl⟩
  | some record =>
    refine h.erase ?_ (if_pos rfl)
    intro other hne
    exact ⟨fun _ => if_neg (Ne.symm hne), fun _ => rfl⟩

theorem Tracks.heartbeat (h : Tracks timeoutNs nowNs.toNat m.registry.actors served)
    (actorId : String) (socket : SocketOutcome) :
    Tracks timeoutNs nowNs.toNat (m.handleRequest (.heartbeat actorId) nowNs socket).1.registry.actors
      (served ++ [answerOf m (.heartbeat actorId) nowNs socket]) := by
  simp only [answerOf, MasterServer.handleRequest, ActorRegistry.recordHeartbeat]
  cases hrecord : m.registry.actors.lookup actorId with
  | none => exact h.silent fun _ => ⟨fun _ => rfl, fun _ => rfl⟩
  | some record =>
    refine h.insert ?_ (h.registered_of_some hrecord)
      ⟨?_, ?_, Nat.le_refl _, fun hstatus => by cases hstatus⟩
    · intro other hne
      exact ⟨fun _ => rfl, fun _ => if_neg (Ne.symm hne)⟩
    · exact (h.current actorId record hrecord).filed
    · rw [latestBeat_append]
      exact if_pos rfl

/-- A new queue leaves the identity, the heartbeat and the status of a record alone. -/
theorem Tracks.registerQueue (h : Tracks timeoutNs nowNs.toNat m.registry.actors served)
    (actorId : String) (queue : QueueInfo) (targetActor : Option String) (socket : SocketOutcome) :
    Tracks timeoutNs nowNs.toNat
      (m.handleRequest (.registerQueue actorId queue targetActor) nowNs socket).1.registry.actors
      (served ++ [answerOf m (.registerQueue actorId queue targetActor) nowNs socket]) := by
  have hregistry :
      (m.handleRequest (.registerQueue actorId queue targetActor) nowNs socket).1.registry =
        (m.registry.registerQueue actorId queue).1 := by
    simp only [MasterServer.handleRequest, MasterServer.registerQueue]
    split
    · rename_i heq
      rw [heq]
    · rename_i heq
      rw [heq]
      cases targetActor <;> rfl
  rw [hregistry]
  rcases m.registry.registerQueue_cases actorId queue with heq | ⟨record, hrecord, _, heq⟩
  · rw [heq]
    exact h.silent fun _ => ⟨fun _ => rfl, fun _ => rfl⟩
  · rw [heq]
    have hold := h.current actorId record hrecord
    refine h.insert (fun _ _ => ⟨fun _ => rfl, fun _ => rfl⟩) (h.registered_of_some hrecord) ?_
    refine ⟨hold.filed, ?_, hold.past, hold.stale⟩
    rw [latestBeat_append]
    exact hold.beat

theorem Tracks.handleRequest (h : Tracks timeoutNs nowNs.toNat m.registry.actors served)
    (request : Request) (socket : SocketOutcome) :
    Tracks timeoutNs nowNs.toNat (m.handleRequest request nowNs socket).1.registry.actors
      (served ++ [answerOf m request nowNs socket]) := by
  cases request with
  | register actor => exact h.register actor socket
  | unregister actorId => exact h.unregister actorId socket
  | heartbeat actorId => exact h.heartbeat actorId socket
  | registerQueue actorId queue targetActor =>
    exact h.registerQueue actorId queue targetActor socket
  | lookupQueue queueAddr =>
    have hsame : (m.handleRequest (.lookupQueue queueAddr) nowNs socket).1 = m := by
      simp only [MasterServer.handleRequest]
      split <;> rfl
    rw [hsame]
    exact h.silent fun _ => ⟨fun _ => rfl, fun _ => rfl⟩
  | findQueues queueType => exact h.silent fun _ => ⟨fun _ => rfl, fun _ => rfl⟩
  | findQueuesByActor actorType queueType =>
    exact h.silent fun _ => ⟨fun _ => rfl, fun _ => rfl⟩
  | connectTrade targetType actorId => exact h.silent fun _ => ⟨fun _ => rfl, fun _ => rfl⟩
  | listActors => exact h.silent fun _ => ⟨fun _ => rfl, fun _ => rfl⟩
  | sendCommand targetActor command => exact h.silent fun _ => ⟨fun _ => rfl, fun _ => rfl⟩

end Requests

section Runs
variable {timeoutNs : UInt64} {s : Service} {clock : Nat}

theorem timeout_step (s : Service) (m : Message) :
    (step s m).master.heartbeatTimeoutNs = s.master.heartbeatTimeoutNs := by
  simp only [step, MasterServer.handleMessage]
  cases m.request with
  | registerQueue actorId queue targetActor =>
    simp only [MasterServer.handleRequest, MasterServer.registerQueue]
    split
    · rfl
    · cases targetActor <;> rfl
  | lookupQueue queueAddr =>
    simp only [MasterServer.handleRequest]
    split <;> rfl
  | register actor => rfl
  | unregister actorId => rfl
  | heartbeat actorId => rfl
  | findQueues queueType => rfl
  | findQueuesByActor actorType queueType => rfl
  | connectTrade targetType actorId => rfl
  | listActors => rfl
  | sendCommand targetActor command => rfl

theorem Tracks.step
    (h : Tracks s.master.heartbeatTimeoutNs.toNat clock s.master.registry.actors s.served)
    {m : Message} (hclock : clock ≤ m.nowNs.toNat) :
    Tracks (ReportedHealth.step s m).master.heartbeatTimeoutNs.toNat m.nowNs.toNat
      (ReportedHealth.step s m).master.registry.actors (ReportedHealth.step s m).served := by
  rw [timeout_step]
  have hfresh := h.refresh hclock
  rw [← actors_updateHealth] at hfresh
  exact @Tracks.handleRequest _ _
    { s.master with registry := s.master.registry.updateHealth m.nowNs s.master.heartbeatTimeoutNs }
    _ hfresh m.request m.socket

theorem Tracks.run {ms : List Message} {last : Nat}
    (h : Tracks s.master.heartbeatTimeoutNs.toNat clock s.master.registry.actors s.served)
    (hclock : (clock :: (ms.map (·.nowNs.toNat) ++ [last])).Pairwise (· ≤ ·)) :
    ∃ clock', clock' ≤ last ∧ Tracks s.master.heartbeatTimeoutNs.toNat clock'
      (Transition.run ReportedHealth.step s ms).master.registry.actors
      (Transition.run ReportedHealth.step s ms).served := by
  rw [List.pairwise_cons] at hclock
  induction ms generalizing s clock with
  | nil => exact ⟨clock, hclock.1 last (List.mem_singleton.mpr rfl), h⟩
  | cons m ms ih =>
    have hrun := ih (h.step (hclock.1 _ List.mem_cons_self)) (List.pairwise_cons.mp hclock.2)
    rw [timeout_step] at hrun
    exact hrun

theorem timeout_run (s : Service) (ms : List Message) :
    (Transition.run step s ms).master.heartbeatTimeoutNs = s.master.heartbeatTimeoutNs := by
  induction ms generalizing s with
  | nil => rfl
  | cons m ms ih => rw [Transition.run_cons, ih, timeout_step]

theorem tracks_start (timeoutNs : UInt64) :
    Tracks timeoutNs.toNat 0 (start timeoutNs).master.registry.actors [] := by
  constructor
  · intro actorId
    exact iff_of_false (fun hne => hne rfl) Bool.false_ne_true
  · intro actorId record hrecord
    cases hrecord

theorem snapshots_nodup {served : List Served} {actors : Map String ActorRecord} {timeoutNs : Nat}
    (h : Tracks timeoutNs clock actors served) :
    (((values actors).map ActorRegistry.snapshot).map (·.actorId)).Nodup := by
  have hkeys : ((values actors).map ActorRegistry.snapshot).map (·.actorId) = actors.entries.keys := by
    simp only [values, List.map_map, List.keys]
    apply List.map_congr_left
    intro entry hmem
    exact (h.current entry.1 entry.2 (mem_entries_iff.mp hmem)).filed
  rw [hkeys]
  exact actors.nodupKeys

end Runs

/-- What `ListActors` reports at the given time is what the answers so far say. -/
structure Exact (timeoutNs nowNs : UInt64) (served : List Served)
    (snapshots : List ActorSnapshot) : Prop where
  once : (snapshots.map (·.actorId)).Nodup
  listed : ∀ actorId, actorId ∈ snapshots.map (·.actorId) ↔ registered actorId served = true
  health : ∀ snapshot ∈ snapshots, ∃ h, latestBeat snapshot.actorId served = some h ∧ h ≤ nowNs ∧
    snapshot.lastHeartbeatNs = h ∧
    (snapshot.status = .healthy ↔ nowNs.toNat - h.toNat ≤ timeoutNs.toNat)

/-- Brought up to date, the records say exactly what has been answered. -/
theorem Tracks.exact {timeoutNs nowNs : UInt64} {clock : Nat} {actors : Map String ActorRecord}
    {served : List Served} (h : Tracks timeoutNs.toNat clock actors served)
    (hclock : clock ≤ nowNs.toNat) :
    Exact timeoutNs nowNs served
      ((values (mapValues (refreshed nowNs timeoutNs) actors)).map ActorRegistry.snapshot) := by
  have hfresh := h.refresh hclock
  refine ⟨snapshots_nodup hfresh, ?_, ?_⟩
  · intro actorId
    rw [← hfresh.listed, List.mem_map]
    constructor
    · intro hlisted
      obtain ⟨snapshot, hmem, rfl⟩ := hlisted
      obtain ⟨record, hvalue, rfl⟩ := List.mem_map.mp hmem
      obtain ⟨key, hkey⟩ := mem_values_iff.mp hvalue
      have hfiled : (ActorRegistry.snapshot record).actorId = key :=
        (hfresh.current key record hkey).filed
      rw [hfiled, hkey]
      exact Option.some_ne_none record
    · intro hlisted
      obtain ⟨record, hrecord⟩ := Option.ne_none_iff_exists'.mp hlisted
      refine ⟨ActorRegistry.snapshot record, ?_, (hfresh.current actorId record hrecord).filed⟩
      exact List.mem_map_of_mem (mem_values_iff.mpr ⟨actorId, hrecord⟩)
  · intro snapshot hmem
    obtain ⟨found, hvalue, rfl⟩ := List.mem_map.mp hmem
    obtain ⟨key, hkey⟩ := mem_values_iff.mp hvalue
    have hcurrent := hfresh.current key found hkey
    have hfiled : (ActorRegistry.snapshot found).actorId = key := hcurrent.filed
    refine ⟨found.lastHeartbeatNs, hfiled ▸ hcurrent.beat,
      UInt64.le_iff_toNat_le.mpr hcurrent.past, rfl, ?_⟩
    rw [lookup_mapValues] at hkey
    obtain ⟨record, hrecord, rfl⟩ := Option.map_eq_some_iff.mp hkey
    rw [refreshed_lastHeartbeatNs]
    exact (h.current key record hrecord).status_refreshed hclock

/-- Along every run with a clock that does not go back, each `ListActors`
response is exact. -/
theorem reported_health_is_exact (timeoutNs : UInt64) {ms : List Message} {nowNs : UInt64}
    (hclock : (ms.map (·.nowNs) ++ [nowNs]).Pairwise (· ≤ ·)) (socket : SocketOutcome) :
    ∃ snapshots,
      ((Transition.run step (start timeoutNs) ms).master.handleMessage .listActors nowNs
        socket).2.1 = .actorList snapshots ∧
      Exact timeoutNs nowNs (Transition.run step (start timeoutNs) ms).served snapshots := by
  have hsorted : (0 :: (ms.map (·.nowNs.toNat) ++ [nowNs.toNat])).Pairwise (· ≤ ·) := by
    refine List.pairwise_cons.mpr ⟨fun _ _ => Nat.zero_le _, ?_⟩
    have htimes : ms.map (·.nowNs.toNat) ++ [nowNs.toNat] =
        (ms.map (·.nowNs) ++ [nowNs]).map (·.toNat) := by
      rw [List.map_append, List.map_map]
      rfl
    rw [htimes, List.pairwise_map]
    exact hclock.imp fun hle => UInt64.le_iff_toNat_le.mp hle
  obtain ⟨clock, hle, htracks⟩ := @Tracks.run (start timeoutNs) 0 ms nowNs.toNat
    (tracks_start timeoutNs) hsorted
  refine ⟨_, ?_, htracks.exact hle⟩
  simp only [MasterServer.handleMessage, MasterServer.handleRequest, ActorRegistry.listActors,
    actors_updateHealth, timeout_run]

/-- Registered, silent past the timeout, refused while registering again, revived. -/
def silentThenRevived : List Message :=
  [⟨.register ⟨"a", "market", []⟩, 1, .sent⟩, ⟨.register ⟨"b", "market", [⟨"q", "market"⟩]⟩, 2, .sent⟩,
   ⟨.listActors, 20, .sent⟩, ⟨.register ⟨"a", "market", [⟨"q", "market"⟩]⟩, 21, .sent⟩,
   ⟨.heartbeat "a", 22, .sent⟩]

theorem reported_health_is_exact_revived :
    ∃ snapshots,
      ((Transition.run step (start 10) silentThenRevived).master.handleMessage .listActors 30
        .sent).2.1 = .actorList snapshots ∧
      Exact 10 30 (Transition.run step (start 10) silentThenRevived).served snapshots :=
  reported_health_is_exact 10 (by decide) .sent

example : ((Transition.run step (start 10) silentThenRevived).master.registry.listActors.map
    fun snapshot => (snapshot.actorId, snapshot.lastHeartbeatNs)) = [("a", 22), ("b", 2)] := rfl

end Nnxt.ReportedHealth
