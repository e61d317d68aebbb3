import Nnxt.MarketGatewayRunner
import Nnxt.SourcePriority

/-!
# What a market gateway is told

Over a whole run of the event loop the gateway is told what the control messages say, one
message after the other as they have come, each of them once and each with a reply, and
at last that it is to stop.
-/

namespace Nnxt.Polling

set_option autoImplicit false

variable {T E : Type} {r r' : Reactor T E}

def controlOf : Option (Event T E) → List Message
  | some (.control message) => [message]
  | _ => []

/-- What has been returned was the first of the control messages. -/
structure Takes (r r' : Reactor T E) (event : Option (Event T E)) : Prop where
  socket : r'.controlSocket.isSome = r.controlSocket.isSome
  control : r.controlWaiting = controlOf event ++ r'.controlWaiting

theorem takes_pollTimers (r : Reactor T E) (nowNs : UInt64) :
    Takes r (r.pollTimers nowNs).1 (r.pollTimers nowNs).2 := by
  refine ⟨rfl, ?_⟩
  rw [Reactor.pollTimers]
  cases (r.timers.pollDue nowNs).2 <;> rfl

/-- Without a listener the socket itself is looked at, though not at every poll. -/
theorem takes_pollCounted (r : Reactor T E) (nowNs : UInt64) :
    Takes r (r.pollCounted nowNs).1 (r.pollCounted nowNs).2 := by
  unfold Reactor.pollCounted
  dsimp only
  split
  · split
    · rename_i message messages hrx hsocket
      refine ⟨?_, ?_⟩
      · rw [hsocket]
        rfl
      · simp only [Reactor.controlWaiting, hrx, hsocket]
        rfl
    · have htimers := takes_pollTimers { r with pollCount := r.pollCount + 1 } nowNs
      exact ⟨htimers.socket, htimers.control⟩
  · exact ⟨rfl, rfl⟩

theorem takes_pollChannels (r : Reactor T E) (nowNs : UInt64) :
    Takes r (r.pollChannels nowNs).1 (r.pollChannels nowNs).2 := by
  unfold Reactor.pollChannels
  split
  · exact ⟨rfl, rfl⟩
  · rename_i message messages hchannel hrx
    refine ⟨rfl, ?_⟩
    simp only [Reactor.controlWaiting, hrx]
    rfl
  · exact takes_pollCounted r nowNs

/-- A source has no control messages to return. -/
theorem controlOf_pollSources (queues : List (RingSystem T)) (sources : List RapidSource) :
    controlOf (pollSources queues sources : List (RingSystem T) × Option (Event T E)).2 = [] := by
  induction sources generalizing queues with
  | nil => rfl
  | cons source sources ih =>
    have hone :
        controlOf (source.poll queues : List (RingSystem T) × Option (Event T E)).2 = [] := by
      unfold RapidSource.poll
      split
      · rfl
      · split
        · rfl
        · rename_i queue _ _ slot _
          dsimp only
          cases (queue.ring.tryRead slot).2 <;> rfl
    rw [pollSources]
    split
    · rename_i hpoll
      rw [hpoll] at hone
      exact hone
    · exact ih _

/-- Over a poll the control messages are those from before and those that have come, less
the one that is returned. -/
theorem step_control (r : Reactor T E) (input : PollInput E) :
    (r.step input).1.controlSocket.isSome = r.controlSocket.isSome ∧
      r.controlWaiting ++ (if r.controlSocket.isSome then input.control else []) =
        controlOf (r.step input).2 ++ (r.step input).1.controlWaiting := by
  have harrive := untouched_arrive r input
  have hlistener := untouched_ensureControlListener (r.arrive input) input.spawned
  have hsocket := hlistener.socket.trans harrive.socket
  have hwaiting := harrive.control
  rw [List.flatMap_singleton] at hwaiting
  have hsame : ((r.arrive input).ensureControlListener input.spawned).controlWaiting =
      (r.arrive input).controlWaiting := by
    rw [hlistener.control]
    simp
  unfold Reactor.step Reactor.poll
  split
  · exact ⟨harrive.socket, hwaiting.symm⟩
  · dsimp only
    generalize (r.arrive input).ensureControlListener input.spawned = ready at hsocket hsame
    have hnone := @controlOf_pollSources T E ready.queues ready.rapidSources
    split
    · rename_i hsources
      rw [hsources] at hnone
      refine ⟨hsocket, ?_⟩
      rw [hnone, ← hwaiting, ← hsame]
      rfl
    · rename_i queues _
      have htakes := takes_pollChannels { ready with queues := queues } input.nowNs
      refine ⟨htakes.socket.trans hsocket, ?_⟩
      rw [← htakes.control, ← hwaiting, ← hsame]
      rfl

/-- What waits at the channel and at the control socket, and a pass for the listener to start. -/
def Reactor.work (r : Reactor T E) : Nat :=
  r.channel.length + r.controlWaiting.length + if r.controlRx.isSome then 0 else 1

/-- Nothing new comes, and the listener passes on all that is at the socket. -/
structure Settles (r : Reactor T E) (input : PollInput E) : Prop where
  shutdown : input.shutdown = false
  external : input.external = []
  control : input.control = []
  spawned : input.spawned = true
  forwarded : (r.controlSocket.getD []).length ≤ input.forwarded

theorem pollCounted_of_listener {nowNs : UInt64} (hrx : r.controlRx.isSome = true) :
    (r.pollCounted nowNs).2 ≠ some .shutdown ∧
      (r.pollCounted nowNs).1.channel = r.channel ∧
      (r.pollCounted nowNs).1.controlWaiting = r.controlWaiting ∧
      (r.pollCounted nowNs).1.controlRx = r.controlRx := by
  unfold Reactor.pollCounted
  dsimp only
  split
  · split
    · rename_i hnone _
      rw [hnone] at hrx
      cases hrx
    · refine ⟨?_, rfl, rfl, rfl⟩
      rw [Reactor.pollTimers]
      cases (r.timers.pollDue nowNs).2 <;> simp
  · exact ⟨by simp, rfl, rfl, rfl⟩

/-- A poll takes one thing from the channel or from the listener, if there is any. -/
theorem work_pollChannels {nowNs : UInt64} {received : List Message}
    (hrx : r.controlRx = some received) :
    (r.pollChannels nowNs).2 ≠ some .shutdown ∧
      ((r.pollChannels nowNs).1.work + 1 ≤ r.work ∨
        r.channel = [] ∧ received = [] ∧ (r.pollChannels nowNs).1.work = r.work) := by
  unfold Reactor.pollChannels
  split
  · rename_i data channel rx hchannel
    refine ⟨by simp, .inl ?_⟩
    simp only [Reactor.work, hchannel, hrx, Reactor.controlWaiting, List.length_cons]
    omega
  · rename_i message messages hchannel hsome
    refine ⟨by simp, .inl ?_⟩
    simp only [Reactor.work, hchannel, hsome, Reactor.controlWaiting, Option.getD_some,
      List.length_append, List.length_cons, List.length_nil, Option.isSome_some, if_true]
    omega
  · rename_i hchannel hnone
    have hlistener : r.controlRx.isSome = true := by
      rw [hrx]
      rfl
    obtain ⟨hevent, hsame, hwaiting, hrxSame⟩ :=
      @pollCounted_of_listener T E r nowNs hlistener
    refine ⟨hevent, .inr ⟨hchannel, ?_, ?_⟩⟩
    · cases received with
      | nil => rfl
      | cons message messages => exact absurd hrx (hnone message messages)
    · rw [Reactor.work, hsame, hwaiting, hrxSame, Reactor.work]

/-- While nothing new comes there is less to do after every pass. -/
theorem work_step {input : PollInput E} (h : Settles r input) (hsources : r.rapidSources = [])
    (hsocket : r.controlSocket.isSome = true) :
    (r.step input).2 ≠ some .shutdown ∧ (r.step input).1.work ≤ r.work - 1 := by
  rcases r with ⟨queues, sources, socket, channel, rx, timers, count⟩
  obtain ⟨messages, rfl⟩ := Option.isSome_iff_exists.mp hsocket
  cases hsources
  cases rx with
  | none =>
    -- the listener starts, and what it will pass on is still at the socket
    have hstep : (⟨queues, [], some messages, channel, none, timers, count⟩ : Reactor T E).step
        input = (⟨queues, [], some messages, channel, some [], timers, count⟩ :
          Reactor T E).pollChannels input.nowNs := by
      simp [Reactor.step, Reactor.arrive, Reactor.poll, Reactor.ensureControlListener, pollSources,
        h.shutdown, h.external, h.control, h.spawned]
    obtain ⟨hevent, hwork⟩ := @work_pollChannels T E
      ⟨queues, [], some messages, channel, some [], timers, count⟩ input.nowNs [] rfl
    rw [hstep]
    refine ⟨hevent, ?_⟩
    simp only [Reactor.work, Reactor.controlWaiting, Option.getD_some, Option.getD_none,
      Option.isSome_some, Option.isSome_none, Bool.false_eq_true, if_true, if_false] at hwork ⊢
    omega
  | some received =>
    have hall : messages.take input.forwarded = messages :=
      List.take_of_length_le h.forwarded
    have hnone : messages.drop input.forwarded = [] := List.drop_eq_nil_of_le h.forwarded
    have hstep : (⟨queues, [], some messages, channel, some received, timers, count⟩ :
        Reactor T E).step input = (⟨queues, [], some [], channel, some (received ++ messages),
          timers, count⟩ : Reactor T E).pollChannels input.nowNs := by
      simp [Reactor.step, Reactor.arrive, Reactor.poll, Reactor.ensureControlListener, pollSources,
        h.shutdown, h.external, h.control, hall, hnone]
    obtain ⟨hevent, hwork⟩ := @work_pollChannels T E
      ⟨queues, [], some [], channel, some (received ++ messages), timers, count⟩ input.nowNs _ rfl
    rw [hstep]
    refine ⟨hevent, ?_⟩
    have hsplit : (⟨queues, [], some [], channel, some (received ++ messages), timers, count⟩ :
        Reactor T E).work =
          (⟨queues, [], some messages, channel, some received, timers, count⟩ :
            Reactor T E).work := by
      simp [Reactor.work, Reactor.controlWaiting]
    rw [hsplit] at hwork
    rcases hwork with hless | ⟨hchannel, hreceived, hsame⟩
    · exact Nat.le_sub_one_of_lt hless
    · rw [hsame, ← hsplit, hreceived]
      simp only at hchannel
      simp [Reactor.work, Reactor.controlWaiting, hchannel]

end Nnxt.Polling

namespace Nnxt.GatewayRunner

open Polling (controlOf Message)

variable {T E G : Type} (callbacks : MarketGatewayCallbacks G)

/-- What a gateway is told by messages handled one after the other. -/
def serveAll (gateway : G) : List Message → G × List GatewayCall
  | [] => (gateway, [])
  | message :: messages =>
    let (gateway, calls) := MarketGatewayRunner.handleControlMessage callbacks gateway message
    ((serveAll gateway messages).1, calls ++ (serveAll gateway messages).2)

/-- The calls, leaving the heartbeats out. -/
def told (calls : List GatewayCall) : List GatewayCall := calls.filter (· ≠ .heartbeat)

/-- What has come to the socket of a session over some passes. -/
def arrived (s : GatewaySession T E G) (passes : List (GatewayPass E)) : List Message :=
  if s.reactor.controlSocket.isSome then passes.flatMap (·.poll.control) else []

/-- After some messages the session stands where these leave a gateway that is told nothing
else, and the rest of what has come is still waiting. -/
structure ServedInOrder (s t : GatewaySession T E G) (come handled : List Message) : Prop where
  order : handled ++ t.reactor.controlWaiting <+: come
  complete : t.outcome = none → handled ++ t.reactor.controlWaiting = come
  calls : told t.calls = told s.calls ++ (serveAll callbacks s.runner.gateway handled).2 ++
    if t.outcome.isSome then [.onStop] else []
  running : t.outcome = none →
    t.runner.gateway = (serveAll callbacks s.runner.gateway handled).1
  stopped : ∀ result, t.outcome = some result →
    (t.runner.gateway, result) =
      callbacks.onStop (serveAll callbacks s.runner.gateway handled).1

section Messages
variable {callbacks}

theorem serveAll_append (gateway : G) (messages messages' : List Message) :
    serveAll callbacks gateway (messages ++ messages') =
      ((serveAll callbacks (serveAll callbacks gateway messages).1 messages').1,
       (serveAll callbacks gateway messages).2 ++
         (serveAll callbacks (serveAll callbacks gateway messages).1 messages').2) := by
  induction messages generalizing gateway with
  | nil => rfl
  | cons message messages ih =>
    simp only [List.cons_append, serveAll, ih, List.append_assoc]

theorem serveAll_singleton (gateway : G) (message : Message) :
    serveAll callbacks gateway [message] =
      MarketGatewayRunner.handleControlMessage callbacks gateway message := by
  simp only [serveAll, List.append_nil]

theorem told_append (calls calls' : List GatewayCall) :
    told (calls ++ calls') = told calls ++ told calls' := List.filter_append _ _

/-- A message is never answered by a heartbeat. -/
theorem told_handleControlMessage (gateway : G) (message : Message) :
    told (MarketGatewayRunner.handleControlMessage callbacks gateway message).2 =
      (MarketGatewayRunner.handleControlMessage callbacks gateway message).2 := by
  unfold MarketGatewayRunner.handleControlMessage
  split
  · rfl
  · split
    · rfl
    · rename_i command _
      split <;> cases command <;> rfl

theorem told_maybeSendHeartbeat (r : MarketGatewayRunner G) (nowNs : UInt64) :
    told (r.maybeSendHeartbeat nowNs).2 = [] ∧
      (r.maybeSendHeartbeat nowNs).1.gateway = r.gateway := by
  unfold MarketGatewayRunner.maybeSendHeartbeat
  split
  · exact ⟨rfl, rfl⟩
  · dsimp only
    refine ⟨?_, rfl⟩
    split <;> rfl

/-- Any other event only brings the loop round to its heartbeat. -/
theorem handleEvent_other {r : MarketGatewayRunner G} {event : Polling.Event T E} {nowNs : UInt64}
    (hcontrol : controlOf (some event) = []) (hshutdown : event ≠ .shutdown) :
    r.handleEvent callbacks event nowNs =
      ((r.maybeSendHeartbeat nowNs).1, (r.maybeSendHeartbeat nowNs).2, .ok false) := by
  cases event with
  | shutdown => exact absurd rfl hshutdown
  | control message => cases hcontrol
  | data sourceId seq value => rfl
  | external data => rfl
  | timer timerId => rfl

theorem handleEvent_shutdown (r : MarketGatewayRunner G) (nowNs : UInt64) :
    r.handleEvent callbacks (.shutdown : Polling.Event T E) nowNs =
      ({ r with gateway := (callbacks.onStop r.gateway).1 }, [.onStop],
        (callbacks.onStop r.gateway).2.map fun _ => true) := rfl

end Messages

section Passes
variable {callbacks} {s t : GatewaySession T E G} {come handled : List Message}

theorem arrived_append (s : GatewaySession T E G) (passes passes' : List (GatewayPass E)) :
    arrived s (passes ++ passes') = arrived s passes ++ arrived s passes' := by
  unfold arrived
  split
  · exact List.flatMap_append
  · rfl

/-- Stopping the gateway is the last thing that is done. -/
theorem ServedInOrder.leave (h : ServedInOrder callbacks s t come handled)
    (hrunning : t.outcome = none) {t' : GatewaySession T E G} {new : List Message}
    (hwaiting : handled ++ t'.reactor.controlWaiting <+: come ++ new)
    (houtcome : t'.outcome = some (callbacks.onStop t.runner.gateway).2)
    (hcalls : t'.calls = t.calls ++ [.onStop])
    (hgateway : t'.runner.gateway = (callbacks.onStop t.runner.gateway).1) :
    ServedInOrder callbacks s t' (come ++ new) handled where
  order := hwaiting
  complete := by
    intro hnone
    rw [houtcome] at hnone
    cases hnone
  calls := by
    have honStop : told [GatewayCall.onStop] = [.onStop] := rfl
    rw [hcalls, told_append, h.calls, hrunning, houtcome, honStop]
    simp only [Option.isSome_none, Bool.false_eq_true, if_false, List.append_nil,
      Option.isSome_some, if_true]
  running := by
    intro hnone
    rw [houtcome] at hnone
    cases hnone
  stopped := by
    intro result hresult
    rw [houtcome] at hresult
    cases hresult
    rw [hgateway, ← h.running hrunning]

/-- A pass that handles no message leaves everything in its place, but for its heartbeat. -/
theorem ServedInOrder.quiet (h : ServedInOrder callbacks s t come handled)
    (hrunning : t.outcome = none) {t' : GatewaySession T E G} {new : List Message} {nowNs : UInt64}
    (hwaiting : t.reactor.controlWaiting ++ new = t'.reactor.controlWaiting)
    (houtcome : t'.outcome = none)
    (hrunner : t'.runner = (t.runner.maybeSendHeartbeat nowNs).1)
    (hcalls : t'.calls = t.calls ++ (t.runner.maybeSendHeartbeat nowNs).2) :
    ServedInOrder callbacks s t' (come ++ new) handled := by
  obtain ⟨hbeats, hgateway⟩ := told_maybeSendHeartbeat t.runner nowNs
  have hcome : handled ++ t'.reactor.controlWaiting = come ++ new := by
    rw [← hwaiting, ← List.append_assoc, h.complete hrunning]
  refine ⟨hcome ▸ List.prefix_refl _, fun _ => hcome, ?_, ?_, ?_⟩
  · rw [hcalls, told_append, hbeats, List.append_nil, h.calls, hrunning, houtcome]
  · intro _
    rw [hrunner, hgateway, h.running hrunning]
  · intro result hresult
    rw [houtcome] at hresult
    cases hresult

/-- A message that is returned is the next one to be handled. -/
theorem ServedInOrder.message (h : ServedInOrder callbacks s t come handled)
    (hrunning : t.outcome = none) {t' : GatewaySession T E G} {new : List Message}
    {message : Message}
    (hwaiting : t.reactor.controlWaiting ++ new = message :: t'.reactor.controlWaiting)
    (houtcome : t'.outcome = none)
    (hcalls : told t'.calls = told t.calls ++
      (MarketGatewayRunner.handleControlMessage callbacks t.runner.gateway message).2)
    (hgateway : t'.runner.gateway =
      (MarketGatewayRunner.handleControlMessage callbacks t.runner.gateway message).1) :
    ServedInOrder callbacks s t' (come ++ new) (handled ++ [message]) := by
  have hcome : (handled ++ [message]) ++ t'.reactor.controlWaiting = come ++ new := by
    rw [List.append_assoc, List.singleton_append, ← hwaiting, ← List.append_assoc,
      h.complete hrunning]
  have hbefore := h.running hrunning
  refine ⟨hcome ▸ List.prefix_refl _, fun _ => hcome, ?_, ?_, ?_⟩
  · rw [hcalls, h.calls, hrunning, houtcome, serveAll_append, serveAll_singleton, ← hbefore]
    simp only [Option.isSome_none, Bool.false_eq_true, if_false, List.append_nil, List.append_assoc]
  · intro _
    rw [hgateway, serveAll_append, serveAll_singleton, ← hbefore]
  · intro result hresult
    rw [houtcome] at hresult
    cases hresult

theorem ServedInOrder.step (h : ServedInOrder callbacks s t come handled)
    (hsocket : t.reactor.controlSocket.isSome = s.reactor.controlSocket.isSome)
    (pass : GatewayPass E) :
    (t.step callbacks pass).reactor.controlSocket.isSome = s.reactor.controlSocket.isSome ∧
      ∃ handled', ServedInOrder callbacks s (t.step callbacks pass) (come ++ arrived s [pass])
        handled' := by
  have hpoll := Polling.step_control t.reactor pass.poll
  have hnew : arrived s [pass] =
      if t.reactor.controlSocket.isSome then pass.poll.control else [] := by
    rw [arrived, hsocket, List.flatMap_singleton]
  rw [← hnew] at hpoll
  unfold GatewaySession.step
  split
  · rename_i result hstopped
    refine ⟨hsocket, handled, h.order.trans (List.prefix_append _ _), ?_, h.calls, h.running,
      h.stopped⟩
    intro hrunning
    rw [hstopped] at hrunning
    cases hrunning
  · rename_i hrunning
    split
    · refine ⟨hsocket, handled, h.leave hrunning ?_ rfl rfl rfl⟩
      exact h.order.trans (List.prefix_append _ _)
    · split
      · rename_i reactor hstep
        rw [hstep] at hpoll
        exact ⟨hpoll.1.trans hsocket, handled, h.quiet hrunning hpoll.2 hrunning rfl rfl⟩
      · rename_i reactor event hstep
        rw [hstep] at hpoll
        have hother := @handleEvent_other T E G callbacks t.runner event pass.nowNs
        cases event with
        | control message =>
          obtain ⟨hbeats, hgateway⟩ := told_maybeSendHeartbeat
            { t.runner with
              gateway :=
                (MarketGatewayRunner.handleControlMessage callbacks t.runner.gateway message).1 }
            pass.nowNs
          refine ⟨hpoll.1.trans hsocket, handled ++ [message],
            h.message hrunning hpoll.2 hrunning ?_ hgateway⟩
          simp only [MarketGatewayRunner.handleEvent, told_append, told_handleControlMessage,
            hbeats, List.append_nil]
        | shutdown =>
          have hwaiting : handled ++ reactor.controlWaiting <+: come ++ arrived s [pass] := by
            rw [← h.complete hrunning, List.append_assoc, hpoll.2]
            exact List.prefix_refl _
          rw [handleEvent_shutdown]
          cases hstop : (callbacks.onStop t.runner.gateway).2 with
          | ok _ =>
            exact ⟨hpoll.1.trans hsocket, handled,
              h.leave hrunning hwaiting (congrArg some hstop.symm) rfl rfl⟩
          | error error =>
            exact ⟨hpoll.1.trans hsocket, handled,
              h.leave hrunning hwaiting (congrArg some hstop.symm) rfl rfl⟩
        | data sourceId seq value =>
          rw [hother rfl nofun]
          exact ⟨hpoll.1.trans hsocket, handled, h.quiet hrunning hpoll.2 hrunning rfl rfl⟩
        | external data =>
          rw [hother rfl nofun]
          exact ⟨hpoll.1.trans hsocket, handled, h.quiet hrunning hpoll.2 hrunning rfl rfl⟩
        | timer timerId =>
          rw [hother rfl nofun]
          exact ⟨hpoll.1.trans hsocket, handled, h.quiet hrunning hpoll.2 hrunning rfl rfl⟩

/-- A loop starts without sources of data, and with nothing at its control socket. -/
theorem start_reactor (gateway : G) (config : MarketGatewayRunnerConfig)
    (input : MarketGatewayRunner.StartInput) :
    (GatewaySession.start callbacks gateway config input :
      GatewaySession T E G).reactor.rapidSources = [] ∧
    (GatewaySession.start callbacks gateway config input :
      GatewaySession T E G).reactor.controlWaiting = [] := by
  unfold GatewaySession.start
  dsimp only
  split <;> exact ⟨rfl, rfl⟩

theorem servedInOrder_refl (hrunning : s.outcome = none)
    (hwaiting : s.reactor.controlWaiting = []) : ServedInOrder callbacks s s [] [] where
  order := by rw [hwaiting, List.append_nil]
  complete := fun _ => by rw [hwaiting, List.append_nil]
  calls := by simp [hrunning, serveAll]
  running := fun _ => rfl
  stopped := by
    intro result hresult
    rw [hrunning] at hresult
    cases hresult

theorem ServedInOrder.always (h : ServedInOrder callbacks s t come handled)
    (hsocket : t.reactor.controlSocket.isSome = s.reactor.controlSocket.isSome)
    (passes : List (GatewayPass E)) :
    ∃ handled', ServedInOrder callbacks s (Transition.run (GatewaySession.step callbacks) t passes)
      (come ++ arrived s passes) handled' := by
  induction passes generalizing t come handled with
  | nil =>
    refine ⟨handled, ?_⟩
    have hnone : arrived s [] = [] := ite_self _
    rw [hnone, List.append_nil]
    exact h
  | cons pass passes ih =>
    obtain ⟨hsocket', handled', hnext⟩ := h.step hsocket pass
    have hcons : arrived s (pass :: passes) = arrived s [pass] ++ arrived s passes :=
      arrived_append s [pass] passes
    rw [Transition.run_cons, hcons, ← List.append_assoc]
    exact ih hnext hsocket'

end Passes

section Quiet
variable {callbacks} {s : GatewaySession T E G}

/-- A pass in which nothing new comes. -/
structure Undisturbed (s : GatewaySession T E G) (pass : GatewayPass E) : Prop where
  signalled : pass.signalled = false
  settles : Polling.Settles s.reactor pass.poll

theorem step_reactor (hrunning : s.outcome = none) {pass : GatewayPass E}
    (hsignalled : pass.signalled = false)
    (hevent : (s.reactor.step pass.poll).2 ≠ some .shutdown) :
    (s.step callbacks pass).reactor = (s.reactor.step pass.poll).1 ∧
      (s.step callbacks pass).outcome = none := by
  unfold GatewaySession.step
  rw [hrunning]
  simp only [hsignalled, Bool.false_eq_true, if_false]
  split
  · rename_i hstep
    rw [hstep]
    exact ⟨rfl, rfl⟩
  · rename_i event hstep
    rw [hstep] at hevent
    rw [hstep]
    cases event with
    | shutdown => exact absurd rfl hevent
    | control message => exact ⟨rfl, rfl⟩
    | data sourceId seq value => exact ⟨rfl, rfl⟩
    | external data => exact ⟨rfl, rfl⟩
    | timer timerId => exact ⟨rfl, rfl⟩

/-- Without sources of data the work gets done, one thing in a pass. -/
theorem work_run (hrunning : s.outcome = none) (hsources : s.reactor.rapidSources = [])
    (hsocket : s.reactor.controlSocket.isSome = true) {passes : List (GatewayPass E)}
    (hquiet : Transition.Guarded (GatewaySession.step callbacks) Undisturbed s passes) :
    (Transition.run (GatewaySession.step callbacks) s passes).outcome = none ∧
      (Transition.run (GatewaySession.step callbacks) s passes).reactor.work ≤
        s.reactor.work - passes.length := by
  induction passes generalizing s with
  | nil => exact ⟨hrunning, Nat.le_refl _⟩
  | cons pass passes ih =>
    obtain ⟨hfirst, hrest⟩ := Transition.guarded_cons.mp hquiet
    obtain ⟨hevent, hwork⟩ := Polling.work_step hfirst.settles hsources hsocket
    obtain ⟨hreactor, hrunning'⟩ := @step_reactor T E G callbacks s hrunning pass hfirst.signalled
      hevent
    have hsources' := Polling.rapidSources_step s.reactor pass.poll
    have hsocket' := (Polling.step_control s.reactor pass.poll).1
    rw [← hreactor] at hwork hsources' hsocket'
    obtain ⟨hstill, hdone⟩ := ih hrunning' (hsources'.trans hsources) (hsocket'.trans hsocket) hrest
    refine ⟨hstill, Nat.le_trans hdone ?_⟩
    rw [List.length_cons]
    omega

/-- A pass polls the event loop once, or leaves it as it is. -/
theorem reactor_step_cases (s : GatewaySession T E G) (pass : GatewayPass E) :
    (s.step callbacks pass).reactor = s.reactor ∨
      (s.step callbacks pass).reactor = (s.reactor.step pass.poll).1 := by
  unfold GatewaySession.step
  split
  · exact .inl rfl
  · split
    · exact .inl rfl
    · split
      · rename_i hstep
        exact .inr (congrArg Prod.fst hstep).symm
      · rename_i hstep
        right
        rw [hstep]
        split <;> rfl

theorem sources_run (s : GatewaySession T E G) (passes : List (GatewayPass E)) :
    (Transition.run (GatewaySession.step callbacks) s passes).reactor.rapidSources =
        s.reactor.rapidSources ∧
      (Transition.run (GatewaySession.step callbacks) s passes).reactor.controlSocket.isSome =
        s.reactor.controlSocket.isSome := by
  induction passes generalizing s with
  | nil => exact ⟨rfl, rfl⟩
  | cons pass passes ih =>
    obtain ⟨hsources, hsocket⟩ := ih (s.step callbacks pass)
    rw [Transition.run_cons, hsources, hsocket]
    rcases reactor_step_cases s pass with hreactor | hreactor
    · rw [hreactor]
      exact ⟨rfl, rfl⟩
    · rw [hreactor]
      exact ⟨Polling.rapidSources_step _ _, (Polling.step_control _ _).1⟩

theorem arrived_of_undisturbed (t : GatewaySession T E G) {passes : List (GatewayPass E)}
    (hquiet : Transition.Guarded (GatewaySession.step callbacks) Undisturbed s passes) :
    arrived t passes = [] := by
  have hnone : passes.flatMap (·.poll.control) = [] := by
    induction passes generalizing s with
    | nil => rfl
    | cons pass passes ih =>
      obtain ⟨hfirst, hrest⟩ := Transition.guarded_cons.mp hquiet
      rw [List.flatMap_cons, hfirst.settles.control, ih hrest, List.nil_append]
  rw [arrived, hnone]
  exact ite_self _

end Quiet

/-- In every run of a market gateway runner that has started, the gateway has been told what
the messages say in the order in which they came, each once and each with its reply, and
nothing else; it is told to stop at most once, and nothing after that. -/
theorem served_in_order (gateway : G) (config : MarketGatewayRunnerConfig)
    (input : MarketGatewayRunner.StartInput)
    (hstarted : (GatewaySession.start callbacks gateway config input :
      GatewaySession T E G).outcome = none) (passes : List (GatewayPass E)) :
    ∃ handled, ServedInOrder callbacks (GatewaySession.start callbacks gateway config input)
      (Transition.run (GatewaySession.step callbacks)
        (GatewaySession.start callbacks gateway config input : GatewaySession T E G) passes)
      (arrived (GatewaySession.start callbacks gateway config input : GatewaySession T E G) passes)
      handled := by
  obtain ⟨_, hwaiting⟩ := @start_reactor T E G callbacks gateway config input
  exact (servedInOrder_refl hstarted hwaiting).always rfl passes

section Example

/-- A gateway that only notes what it is subscribed to. -/
def notingGateway : MarketGatewayCallbacks (List InstrumentId) where
  onStart := fun noted => (noted, .ok ())
  onSubscribe := fun noted instrument => (instrument :: noted, .ok ())
  onUnsubscribe := fun noted instrument => (noted.filter (· ≠ instrument), .ok ())
  onStop := fun noted => (noted, .ok ())

def controlledConfig : MarketGatewayRunnerConfig :=
  { MarketGatewayRunnerConfig.default with controlAddr := some "ipc:///tmp/market-gateway" }

def notingSession : GatewaySession Unit Unit (List InstrumentId) :=
  GatewaySession.start notingGateway [] controlledConfig ⟨true, .ok (), 0⟩

/-- A message comes in the pass that starts the listener. -/
def firstPass : GatewayPass Unit :=
  ⟨false, ⟨false, [], [asBytes "subscribe:IF2409"], 0, true, 1⟩, 2⟩

def secondPass : GatewayPass Unit := ⟨false, ⟨false, [], [], 1, true, 3⟩, 4⟩

theorem served_in_order_first :
    ∃ handled, ServedInOrder notingGateway notingSession
      (Transition.run (GatewaySession.step notingGateway) notingSession [firstPass, secondPass])
      (arrived notingSession [firstPass, secondPass]) handled :=
  served_in_order notingGateway [] controlledConfig ⟨true, .ok (), 0⟩ rfl [firstPass, secondPass]

end Example

/-- A runner that finds its loop undisturbed for as many passes as there are things waiting has
handled every message that has come. -/
theorem all_handled (gateway : G) (config : MarketGatewayRunnerConfig)
    (input : MarketGatewayRunner.StartInput)
    (hstarted : (GatewaySession.start callbacks gateway config input :
      GatewaySession T E G).outcome = none)
    (hcontrol : (GatewaySession.start callbacks gateway config input :
      GatewaySession T E G).reactor.controlSocket.isSome = true)
    (passes : List (GatewayPass E))
    (hrunning : (Transition.run (GatewaySession.step callbacks)
      (GatewaySession.start callbacks gateway config input : GatewaySession T E G)
      passes).outcome = none)
    {quiet : List (GatewayPass E)}
    (hquiet : Transition.Guarded (GatewaySession.step callbacks) Undisturbed
      (Transition.run (GatewaySession.step callbacks)
        (GatewaySession.start callbacks gateway config input : GatewaySession T E G) passes) quiet)
    (henough : (Transition.run (GatewaySession.step callbacks)
      (GatewaySession.start callbacks gateway config input : GatewaySession T E G)
      passes).reactor.work ≤ quiet.length) :
    (Transition.run (GatewaySession.step callbacks)
      (GatewaySession.start callbacks gateway config input : GatewaySession T E G)
      (passes ++ quiet)).outcome = none ∧
    ServedInOrder callbacks (GatewaySession.start callbacks gateway config input)
      (Transition.run (GatewaySession.step callbacks)
        (GatewaySession.start callbacks gateway config input : GatewaySession T E G)
        (passes ++ quiet))
      (arrived (GatewaySession.start callbacks gateway config input : GatewaySession T E G) passes)
      (arrived (GatewaySession.start callbacks gateway config input : GatewaySession T E G)
        passes) := by
  obtain ⟨hsources, hwaiting⟩ := @start_reactor T E G callbacks gateway config input
  generalize (GatewaySession.start callbacks gateway config input : GatewaySession T E G) = s at *
  obtain ⟨hkept, hsocket⟩ := @sources_run T E G callbacks s passes
  obtain ⟨hstill, hdone⟩ :=
    work_run hrunning (hkept.trans hsources) (hsocket.trans hcontrol) hquiet
  rw [← Transition.run_append] at hstill hdone
  have hstart : ServedInOrder callbacks s s [] [] := servedInOrder_refl hstarted hwaiting
  obtain ⟨handled, hserved⟩ := hstart.always rfl (passes ++ quiet)
  rw [arrived_append, arrived_of_undisturbed s hquiet, List.append_nil, List.nil_append] at hserved
  have hnone : (Transition.run (GatewaySession.step callbacks) s
      (passes ++ quiet)).reactor.controlWaiting = [] := by
    rw [Polling.Reactor.work] at hdone
    apply List.eq_nil_of_length_eq_zero
    omega
  have hall := hserved.complete hstill
  rw [hnone, List.append_nil] at hall
  rw [hall] at hserved
  exact ⟨hstill, hserved⟩

/-- The pass after the one that starts the listener hands the message over. -/
theorem all_handled_first :
    (Transition.run (GatewaySession.step notingGateway) notingSession
      ([firstPass] ++ [secondPass])).outcome = none ∧
    ServedInOrder notingGateway notingSession
      (Transition.run (GatewaySession.step notingGateway) notingSession
        ([firstPass] ++ [secondPass]))
      (arrived notingSession [firstPass]) (arrived notingSession [firstPass]) := by
  have hsettles : Polling.Settles (notingSession.step notingGateway firstPass).reactor
      secondPass.poll := ⟨rfl, rfl, rfl, rfl, by decide⟩
  exact all_handled notingGateway [] controlledConfig ⟨true, .ok (), 0⟩ rfl rfl [firstPass] rfl
    (Transition.guarded_cons.mpr ⟨⟨rfl, hsettles⟩, Transition.guarded_nil⟩) (by decide)

end Nnxt.GatewayRunner
