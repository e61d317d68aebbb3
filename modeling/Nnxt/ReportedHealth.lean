import Nnxt.MasterServer
import Nnxt.Foundation.Transition

/-!
# The health the master reports

The status of a record is only ever brought up to date, never recomputed: it is
set healthy by a register or a heartbeat and unhealthy by the check before each
request. What the answers so far say about an actor decides what is reported.
-/

namespace Nnxt.ReportedHealth

set_option autoImplicit false

open HashMap FixedWidth

structure Message where
  request : Request
  nowNs : UInt64
  socket : SocketOutcome

structure Served where
  request : Request
  nowNs : UInt64
  response : Response

/-- The master, and what it has answered so far; no request reads the answers. -/
structure Service where
  master : MasterServer
  served : List Served

def start (timeoutNs : UInt64) : Service := ⟨⟨ActorRegistry.new, timeoutNs⟩, []⟩

def step (s : Service) (m : Message) : Service where
  master := (s.master.handleMessage m.request m.nowNs m.socket).1
  served := s.served ++
    [⟨m.request, m.nowNs, (s.master.handleMessage m.request m.nowNs m.socket).2.1⟩]

def registeredAfter (actorId : String) (before : Bool) (served : Served) : Bool :=
  match served.request, served.response with
  | .register actor, .ok => if actor.actorId = actorId then true else before
  | .unregister other, .ok => if other = actorId then false else before
  | _, _ => before

/-- Registered successfully, and not unregistered since. -/
def registered (actorId : String) (served : List Served) : Bool :=
  served.foldl (registeredAfter actorId) false

def beatAfter (actorId : String) (before : Option UInt64) (served : Served) : Option UInt64 :=
  match served.request, served.response with
  | .register actor, .ok => if actor.actorId = actorId then some served.nowNs else before
  | .heartbeat other, .ok => if other = actorId then some served.nowNs else before
  | _, _ => before

/-- The time of the latest successful register or heartbeat. -/
def latestBeat (actorId : String) (served : List Served) : Option UInt64 :=
  served.foldl (beatAfter actorId) none

/-- A record agrees with the answers; one marked unhealthy has missed its timeout. -/
structure Current (timeoutNs clock : Nat) (served : List Served) (actorId : String)
    (record : ActorRecord) : Prop where
  filed : record.registration.actorId = actorId
  beat : latestBeat actorId served = some record.lastHeartbeatNs
  past : record.lastHeartbeatNs.toNat ≤ clock
  stale : record.status = .unhealthy → timeoutNs < clock - record.lastHeartbeatNs.toNat

structure Tracks (timeoutNs clock : Nat) (actors : Map String ActorRecord)
    (served : List Served) : Prop where
  listed : ∀ actorId, actors.lookup actorId ≠ none ↔ registered actorId served = true
  current : ∀ actorId record, actors.lookup actorId = some record →
    Current timeoutNs clock served actorId record

section Records
variable {timeoutNs clock : Nat} {actors : Map String ActorRecord} {served : List Served}
  {answer : Served} {actorId : String} {record : ActorRecord}

theorem registered_append (actorId : String) :
    registered actorId (served ++ [answer]) =
      registeredAfter actorId (registered actorId served) answer := List.foldl_append

theorem latestBeat_append (actorId : String) :
    latestBeat actorId (served ++ [answer]) =
      beatAfter actorId (latestBeat actorId served) answer := List.foldl_append

/-- The answer changes nothing for actors other than the given one. -/
def SparesOthers (answer : Served) (actorId : String) : Prop :=
  ∀ other, other ≠ actorId → (∀ before, registeredAfter other before answer = before) ∧
    ∀ before, beatAfter other before answer = before

def Silent (answer : Served) : Prop :=
  ∀ other, (∀ before, registeredAfter other before answer = before) ∧
    ∀ before, beatAfter other before answer = before

theorem Current.congr {served' : List Served} (h : Current timeoutNs clock served actorId record)
    (hbeat : latestBeat actorId served' = latestBeat actorId served) :
    Current timeoutNs clock served' actorId record :=
  ⟨h.filed, hbeat.trans h.beat, h.past, h.stale⟩

theorem Tracks.registered_of_some (h : Tracks timeoutNs clock actors served)
    (hrecord : actors.lookup actorId = some record) : registered actorId served = true := by
  rw [← h.listed, hrecord]
  exact Option.some_ne_none record

theorem Tracks.silent (h : Tracks timeoutNs clock actors served) (hs : Silent answer) :
    Tracks timeoutNs clock actors (served ++ [answer]) := by
  constructor
  · intro actorId
    rw [registered_append, (hs actorId).1, h.listed]
  · intro actorId record hrecord
    apply (h.current actorId record hrecord).congr
    rw [latestBeat_append, (hs actorId).2]

theorem Tracks.insert (h : Tracks timeoutNs clock actors served)
    (hothers : SparesOthers answer actorId)
    (hlisted : registeredAfter actorId (registered actorId served) answer = true)
    (hrecord : Current timeoutNs clock (served ++ [answer]) actorId record) :
    Tracks timeoutNs clock (actors.insert actorId record) (served ++ [answer]) := by
  constructor
  · intro other
    rw [registered_append, lookup_insert_eq]
    split
    · rename_i heq
      rw [heq, hlisted]
      exact iff_of_true (Option.some_ne_none record) rfl
    · rename_i hne
      rw [(hothers other hne).1, h.listed]
  · intro other found hfound
    rw [lookup_insert_eq] at hfound
    split at hfound
    · rename_i heq
      cases hfound
      rw [heq]
      exact hrecord
    · rename_i hne
      apply (h.current other found hfound).congr
      rw [latestBeat_append, (hothers other hne).2]

theorem Tracks.erase (h : Tracks timeoutNs clock actors served)
    (hothers : SparesOthers answer actorId)
    (hlisted : registeredAfter actorId (registered actorId served) answer = false) :
    Tracks timeoutNs clock (actors.erase actorId) (served ++ [answer]) := by
  constructor
  · intro other
    rw [registered_append, lookup_erase_eq]
    split
    · rename_i heq
      rw [heq, hlisted]
      exact iff_of_false (fun hne => hne rfl) Bool.false_ne_true
    · rename_i hne
      rw [(hothers other hne).1, h.listed]
  · intro other found hfound
    rw [lookup_erase_eq] at hfound
    split at hfound
    · cases hfound
    · rename_i hne
      apply (h.current other found hfound).congr
      rw [latestBeat_append, (hothers other hne).2]

/-- What `update_health` does to one record. -/
def refreshed (nowNs timeoutNs : UInt64) (record : ActorRecord) : ActorRecord :=
  if timeoutNs < saturatingSub nowNs record.lastHeartbeatNs then { record with status := .unhealthy }
  else record

@[simp] theorem refreshed_registration (nowNs timeoutNs : UInt64) (record : ActorRecord) :
    (refreshed nowNs timeoutNs record).registration = record.registration := by
  unfold refreshed
  split <;> rfl

@[simp] theorem refreshed_lastHeartbeatNs (nowNs timeoutNs : UInt64) (record : ActorRecord) :
    (refreshed nowNs timeoutNs record).lastHeartbeatNs = record.lastHeartbeatNs := by
  unfold refreshed
  split <;> rfl

theorem actors_updateHealth (r : ActorRegistry) (nowNs timeoutNs : UInt64) :
    (r.updateHealth nowNs timeoutNs).actors = mapValues (refreshed nowNs timeoutNs) r.actors := rfl

/-- Right after the check the status is exact: an old mark stays right because
the clock does not go back. -/
theorem Current.status_refreshed {nowNs timeoutNs : UInt64}
    (h : Current timeoutNs.toNat clock served actorId record) (hclock : clock ≤ nowNs.toNat) :
    (refreshed nowNs timeoutNs record).status = .healthy ↔
      nowNs.toNat - record.lastHeartbeatNs.toNat ≤ timeoutNs.toNat := by
  unfold refreshed
  split
  · rename_i hlate
    rw [UInt64.lt_iff_toNat_lt, toNat_saturatingSub] at hlate
    refine iff_of_false (fun hstatus => ?_) (by omega)
    cases hstatus
  · rename_i hintime
    rw [UInt64.lt_iff_toNat_lt, toNat_saturatingSub] at hintime
    refine iff_of_true ?_ (by omega)
    cases hstatus : record.status with
    | healthy => rfl
    | unhealthy =>
      have hstale := h.stale hstatus
      omega

theorem Tracks.refresh {nowNs timeoutNs : UInt64} (h : Tracks timeoutNs.toNat clock actors served)
    (hclock : clock ≤ nowNs.toNat) :
    Tracks timeoutNs.toNat nowNs.toNat (mapValues (refreshed nowNs timeoutNs) actors) served := by
  constructor
  · intro actorId
    rw [lookup_mapValues, Ne, Option.map_eq_none_iff]
    exact h.listed actorId
  · intro actorId found hfound
    rw [lookup_mapValues] at hfound
    obtain ⟨record, hrecord, rfl⟩ := Option.map_eq_some_iff.mp hfound
    have hold := h.current actorId record hrecord
    have hstatus := hold.status_refreshed hclock
    refine ⟨?_, ?_, ?_, ?_⟩
    · rw [refreshed_registration]
      exact hold.filed
    · rw [refreshed_lastHeartbeatNs]
      exact hold.beat
    · rw [refreshed_lastHeartbeatNs]
      exact Nat.le_trans hold.past hclock
    · intro hunhealthy
      rw [refreshed_lastHeartbeatNs]
      rw [hunhealthy] at hstatus
      by_contra hintime
      have hhealthy := hstatus.mpr (Nat.le_of_not_lt hintime)
      cases hhealthy

end Records

end Nnxt.ReportedHealth
