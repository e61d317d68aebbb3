import Nnxt.HealthRuns

/-!
# Heartbeats of a gateway

A gateway runner sends a heartbeat at most once an interval, and only when its loop
comes round; the master marks an actor unhealthy once its latest message is older than
the timeout. The two read different clocks that run alike.
-/

namespace Nnxt.GatewayHeartbeats

set_option autoImplicit false

open FixedWidth ReportedHealth Transition

def defaultHeartbeatIntervalNs : UInt64 := 1000000000

/-- The fields of a gateway runner with a master that `maybe_send_heartbeat` reads. -/
structure Heartbeats where
  actorId : String
  heartbeatIntervalNs : UInt64
  lastHeartbeatNs : UInt64

/-- The flag tells whether a heartbeat is sent; a failure to send it is ignored. -/
def Heartbeats.maybeSendHeartbeat (h : Heartbeats) (nowNs : UInt64) : Heartbeats × Bool :=
  if saturatingSub nowNs h.lastHeartbeatNs < h.heartbeatIntervalNs then (h, false)
  else ({ h with lastHeartbeatNs := nowNs }, true)

/-- The runner and the master. `passedNs` is the clock of the runner at its latest pass,
`sentNs` its clock at each heartbeat it has sent. -/
structure System where
  runner : Heartbeats
  passedNs : UInt64
  sentNs : List UInt64
  service : Service

/-- One pass of the loop of the runner with the time at which the master would handle a
heartbeat, or a message to the master from anyone. -/
inductive Step where
  | pass (nowNs masterNs : UInt64)
  | message (m : Message)

def step (s : System) : Step → System
  | .pass nowNs masterNs =>
    let (runner, sent) := s.runner.maybeSendHeartbeat nowNs
    if sent then
      { runner := runner
        passedNs := nowNs
        sentNs := s.sentNs ++ [nowNs]
        service := ReportedHealth.step s.service ⟨.heartbeat s.runner.actorId, masterNs, .sent⟩ }
    else { s with passedNs := nowNs }
  | .message m => { s with service := ReportedHealth.step s.service m }

/-- The latest time the master has read. -/
def masterClock (s : System) : Nat := (s.service.served.getLast?.map (·.nowNs.toNat)).getD 0

/-- `offset` is what the clock of the master is ahead. A pass comes at the latest `gapNs`
after the one before, and a message takes at most `delayNs`. -/
structure Timing where
  offset : Int
  gapNs : Nat
  delayNs : Nat

/-- No clock goes back, and the runner keeps its pace. Nobody else takes the actor off
the register. -/
def Timely (timing : Timing) (s : System) : Step → Prop
  | .pass nowNs masterNs =>
    s.passedNs.toNat ≤ nowNs.toNat ∧ nowNs.toNat ≤ s.passedNs.toNat + timing.gapNs ∧
      ((s.runner.maybeSendHeartbeat nowNs).2 = true →
        masterClock s ≤ masterNs.toNat ∧ nowNs.toNat + timing.offset ≤ masterNs.toNat ∧
          (masterNs.toNat : Int) ≤ nowNs.toNat + timing.offset + timing.delayNs)
  | .message m =>
    masterClock s ≤ m.nowNs.toNat ∧
      (m.nowNs.toNat : Int) ≤ s.passedNs.toNat + timing.offset + timing.gapNs + timing.delayNs ∧
      m.request ≠ .unregister s.runner.actorId

instance (timing : Timing) (s : System) (i : Step) : Decidable (Timely timing s i) := by
  cases i <;> exact inferInstanceAs (Decidable (_ ∧ _))

/-- The runner has just read the answer to its registration, which the master may have
given up to `delayNs` earlier, after any messages of others. -/
structure Registered (timing : Timing) (timeoutNs : UInt64) (ms : List Message)
    (actor : ActorRegistration) (registeredNs : UInt64) (s : System) : Prop where
  service : s.service = ReportedHealth.step (run ReportedHealth.step (start timeoutNs) ms)
    ⟨.register actor, registeredNs, .sent⟩
  sorted : (ms.map (·.nowNs) ++ [registeredNs]).Pairwise (· ≤ ·)
  actorId : s.runner.actorId = actor.actorId
  accepted : ((run ReportedHealth.step (start timeoutNs) ms).master.handleMessage (.register actor)
    registeredNs .sent).2.1 = .ok
  answered : (registeredNs.toNat : Int) ≤ s.passedNs.toNat + timing.offset
  answeredSoon : s.passedNs.toNat + timing.offset ≤ registeredNs.toNat + timing.delayNs
  last : s.runner.lastHeartbeatNs = s.passedNs
  sent : s.sentNs = []

/-- What is kept: the master knows of a message that is hardly older than the one the
runner sent last, and the runner is not overdue. -/
structure Beating (timing : Timing) (s : System) : Prop where
  tracks : Tracks s.service.master.heartbeatTimeoutNs.toNat (masterClock s)
    s.service.master.registry.actors s.service.served
  listed : registered s.runner.actorId s.service.served = true
  beat : ∃ beatNs, latestBeat s.runner.actorId s.service.served = some beatNs ∧
    s.runner.lastHeartbeatNs.toNat + timing.offset ≤ beatNs.toNat + timing.delayNs
  due : s.passedNs.toNat ≤ s.runner.lastHeartbeatNs.toNat + s.runner.heartbeatIntervalNs.toNat
  past : s.runner.lastHeartbeatNs.toNat ≤ s.passedNs.toNat

section Steps
variable {timing : Timing} {s : System}

theorem masterClock_served (s : System) (m : Message) :
    masterClock { s with service := ReportedHealth.step s.service m } = m.nowNs.toNat := by
  simp only [masterClock, ReportedHealth.step, List.getLast?_append, List.getLast?_singleton,
    Option.some_or, Option.map_some, Option.getD_some]

/-- An answer that does not unregister the actor leaves it registered. -/
theorem registeredAfter_of_kept {actorId : String} {answer : Served}
    (h : answer.request ≠ .unregister actorId) : registeredAfter actorId true answer = true := by
  unfold registeredAfter
  split
  · exact ite_self true
  · rename_i other hrequest _
    rw [if_neg]
    rintro rfl
    exact h hrequest
  · rfl

/-- The latest message of the actor only gets later. -/
theorem latestBeat_step {actorId : String} {beatNs : UInt64} {answer : Served}
    (hlater : beatNs.toNat ≤ answer.nowNs.toNat) :
    ∃ beatNs', beatAfter actorId (some beatNs) answer = some beatNs' ∧
      beatNs.toNat ≤ beatNs'.toNat := by
  have hchoice : ∀ p : Prop, [Decidable p] → ∃ beatNs',
      (if p then some answer.nowNs else some beatNs) = some beatNs' ∧
        beatNs.toNat ≤ beatNs'.toNat := by
    intro p _
    by_cases hp : p
    · exact ⟨answer.nowNs, if_pos hp, hlater⟩
    · exact ⟨beatNs, if_neg hp, Nat.le_refl _⟩
  unfold beatAfter
  split
  · exact hchoice _
  · exact hchoice _
  · exact ⟨beatNs, rfl, Nat.le_refl _⟩

theorem Beating.beat_past (h : Beating timing s) {beatNs : UInt64}
    (hbeat : latestBeat s.runner.actorId s.service.served = some beatNs) :
    beatNs.toNat ≤ masterClock s := by
  obtain ⟨record, hrecord⟩ := Option.ne_none_iff_exists'.mp ((h.tracks.listed _).mpr h.listed)
  have hcurrent := h.tracks.current _ record hrecord
  have hsame : beatNs = record.lastHeartbeatNs := Option.some.inj (hbeat.symm.trans hcurrent.beat)
  rw [hsame]
  exact hcurrent.past

/-- A message that keeps the clock and the registration keeps the rest. -/
theorem Beating.message (h : Beating timing s) {m : Message}
    (hclock : masterClock s ≤ m.nowNs.toNat) (hkept : m.request ≠ .unregister s.runner.actorId) :
    Beating timing { s with service := ReportedHealth.step s.service m } := by
  obtain ⟨beatNs, hbeat, hlast⟩ := h.beat
  have hlater : beatNs.toNat ≤ m.nowNs.toNat := Nat.le_trans (h.beat_past hbeat) hclock
  obtain ⟨beatNs', hbeat', hle⟩ := @latestBeat_step s.runner.actorId beatNs
    ⟨m.request, m.nowNs, (s.service.master.handleMessage m.request m.nowNs m.socket).2.1⟩ hlater
  refine ⟨?_, ?_, ⟨beatNs', ?_, ?_⟩, h.due, h.past⟩
  · rw [masterClock_served]
    exact h.tracks.step hclock
  · simp only [ReportedHealth.step, registered_append, h.listed]
    exact registeredAfter_of_kept hkept
  · simp only [ReportedHealth.step, latestBeat_append, hbeat]
    exact hbeat'
  · simp only
    omega

/-- The heartbeat of a registered actor is taken, whatever its health. -/
theorem heartbeat_accepted {master : MasterServer} {actorId : String} {nowNs : UInt64}
    {socket : SocketOutcome} (h : master.registry.actors.lookup actorId ≠ none) :
    (master.handleMessage (.heartbeat actorId) nowNs socket).2.1 = .ok := by
  obtain ⟨record, hrecord⟩ := Option.ne_none_iff_exists'.mp h
  simp only [MasterServer.handleMessage, MasterServer.handleRequest,
    ActorRegistry.recordHeartbeat, actors_updateHealth, HashMap.lookup_mapValues, hrecord,
    Option.map_some]
  rfl

/-- A heartbeat that is delivered is the latest message of the actor. -/
theorem Beating.latestBeat_heartbeat (h : Beating timing s) (masterNs : UInt64) :
    latestBeat s.runner.actorId
      (ReportedHealth.step s.service ⟨.heartbeat s.runner.actorId, masterNs, .sent⟩).served =
        some masterNs := by
  have haccepted : (s.service.master.handleMessage (.heartbeat s.runner.actorId) masterNs
      .sent).2.1 = .ok := heartbeat_accepted ((h.tracks.listed _).mpr h.listed)
  simp only [ReportedHealth.step, latestBeat_append, haccepted]
  exact if_pos rfl

theorem Beating.pass (h : Beating timing s) {nowNs masterNs : UInt64}
    (ht : Timely timing s (.pass nowNs masterNs)) : Beating timing (step s (.pass nowNs masterNs)) := by
  obtain ⟨hforward, hgap, hdelivered⟩ := ht
  have hpast := h.past
  by_cases hearly : saturatingSub nowNs s.runner.lastHeartbeatNs < s.runner.heartbeatIntervalNs
  · have hidle : step s (.pass nowNs masterNs) = { s with passedNs := nowNs } := by
      simp only [step, Heartbeats.maybeSendHeartbeat, if_pos hearly, Bool.false_eq_true, if_false]
    rw [UInt64.lt_iff_toNat_lt, toNat_saturatingSub] at hearly
    rw [hidle]
    refine ⟨h.tracks, h.listed, h.beat, ?_, ?_⟩
    · simp only
      omega
    · simp only
      omega
  · have hsends : step s (.pass nowNs masterNs) =
        { runner := { s.runner with lastHeartbeatNs := nowNs }
          passedNs := nowNs
          sentNs := s.sentNs ++ [nowNs]
          service := ReportedHealth.step s.service
            ⟨.heartbeat s.runner.actorId, masterNs, .sent⟩ } := by
      simp only [step, Heartbeats.maybeSendHeartbeat, if_neg hearly, if_true]
    simp only [Heartbeats.maybeSendHeartbeat, if_neg hearly] at hdelivered
    obtain ⟨hclock, hafter, -⟩ := hdelivered trivial
    have hmessage := h.message (m := ⟨.heartbeat s.runner.actorId, masterNs, .sent⟩) hclock nofun
    rw [hsends]
    refine ⟨hmessage.tracks, hmessage.listed, ⟨masterNs, h.latestBeat_heartbeat masterNs, ?_⟩, ?_,
      Nat.le_refl _⟩
    · simp only
      omega
    · exact Nat.le_add_right _ _

theorem Beating.step (h : Beating timing s) {i : Step} (ht : Timely timing s i) :
    Beating timing (GatewayHeartbeats.step s i) := by
  cases i with
  | pass nowNs masterNs => exact h.pass ht
  | message m => exact h.message ht.1 ht.2.2

theorem timeout_step (s : System) (i : Step) :
    (step s i).service.master.heartbeatTimeoutNs = s.service.master.heartbeatTimeoutNs := by
  cases i with
  | pass nowNs masterNs =>
    simp only [step]
    split
    · exact ReportedHealth.timeout_step _ _
    · rfl
  | message m => exact ReportedHealth.timeout_step _ _

/-- The heartbeats are an interval apart, and the last of them is the one remembered. -/
structure Spaced (s : System) : Prop where
  apart : s.sentNs.Pairwise fun sentNs laterNs =>
    sentNs.toNat + s.runner.heartbeatIntervalNs.toNat ≤ laterNs.toNat
  last : ∀ sentNs ∈ s.sentNs, sentNs.toNat ≤ s.runner.lastHeartbeatNs.toNat
  past : s.runner.lastHeartbeatNs.toNat ≤ s.passedNs.toNat

theorem Spaced.step (h : Spaced s) {i : Step} (ht : Timely timing s i) :
    Spaced (GatewayHeartbeats.step s i) := by
  cases i with
  | message m => exact ⟨h.apart, h.last, h.past⟩
  | pass nowNs masterNs =>
    have hforward := ht.1
    have hpast := h.past
    simp only [GatewayHeartbeats.step, Heartbeats.maybeSendHeartbeat]
    by_cases hearly : saturatingSub nowNs s.runner.lastHeartbeatNs < s.runner.heartbeatIntervalNs
    · simp only [if_pos hearly, Bool.false_eq_true, if_false]
      exact ⟨h.apart, h.last, Nat.le_trans hpast hforward⟩
    · simp only [if_neg hearly, if_true]
      rw [UInt64.lt_iff_toNat_lt, toNat_saturatingSub] at hearly
      refine ⟨List.pairwise_append.mpr ⟨h.apart, List.pairwise_singleton _ _, ?_⟩, ?_, Nat.le_refl _⟩
      · intro sentNs hsent laterNs hlater
        have hlast := h.last sentNs hsent
        rw [List.mem_singleton.mp hlater]
        simp only
        omega
      · intro sentNs hsent
        rcases List.mem_append.mp hsent with hsent | hsent
        · have hlast := h.last sentNs hsent
          simp only
          omega
        · rw [List.mem_singleton.mp hsent]

end Steps

section Runs
variable {timing : Timing} {s : System}

/-- While the runner keeps its pace, whoever lists the actors finds it healthy. -/
theorem Beating.healthy (h : Beating timing s) {nowNs : UInt64} {socket : SocketOutcome}
    (hfits : s.runner.heartbeatIntervalNs.toNat + timing.gapNs + 2 * timing.delayNs ≤
      s.service.master.heartbeatTimeoutNs.toNat)
    (ht : Timely timing s (.message ⟨.listActors, nowNs, socket⟩)) :
    ∃ snapshots, (s.service.master.handleMessage .listActors nowNs socket).2.1 =
        .actorList snapshots ∧
      ∃ snapshot ∈ snapshots, snapshot.actorId = s.runner.actorId ∧ snapshot.status = .healthy := by
  obtain ⟨hclock, hsoon, -⟩ := ht
  simp only at hclock hsoon
  obtain ⟨beatNs, hbeat, hlast⟩ := h.beat
  have hdue := h.due
  have hexact := h.tracks.exact hclock
  refine ⟨_, rfl, ?_⟩
  obtain ⟨snapshot, hmem, hid⟩ := List.mem_map.mp ((hexact.listed s.runner.actorId).mpr h.listed)
  refine ⟨snapshot, hmem, hid, ?_⟩
  obtain ⟨beatNs', hbeat', -, -, hstatus⟩ := hexact.health snapshot hmem
  rw [hid, hbeat, Option.some.injEq] at hbeat'
  subst hbeat'
  rw [hstatus]
  omega

theorem timeout_run (s : System) (is : List Step) :
    (run step s is).service.master.heartbeatTimeoutNs = s.service.master.heartbeatTimeoutNs := by
  induction is generalizing s with
  | nil => rfl
  | cons i is ih => rw [run_cons, ih, timeout_step]

end Runs

end Nnxt.GatewayHeartbeats
