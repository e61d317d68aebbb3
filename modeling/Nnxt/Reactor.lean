import Nnxt.TimerSchedule
import Nnxt.RingReaders

/-!
# The reactor

The event loop under every runner. One `poll` answers with one event: it looks at
the rapid sources in their order, then at the channel and the control listener,
and only at every thousandth poll that has found nothing at the control socket and
the timers. What other threads have sent since the last poll is an argument.
-/

namespace Nnxt.Polling

set_option autoImplicit false

structure TimerEntry where
  timerId : UInt64
  dueNs : UInt64
  deriving DecidableEq, Repr

structure TimerManager where
  timers : List TimerEntry
  deriving DecidableEq, Repr

namespace TimerManager

protected def default : TimerManager := ⟨[]⟩

def addTimer (m : TimerManager) (timerId dueNs : UInt64) : TimerManager :=
  ⟨m.timers ++ [⟨timerId, dueNs⟩]⟩

/-- The first due timer goes, and the last one takes its place. -/
def pollDue (m : TimerManager) (nowNs : UInt64) : TimerManager × Option UInt64 :=
  match m.timers.findIdx? fun timer => timer.dueNs ≤ nowNs with
  | some idx => (⟨swapRemove m.timers idx⟩, m.timers[idx]?.map (·.timerId))
  | none => (m, none)

end TimerManager

abbrev Message := List UInt8

/-- A data event carries a reference; `value` is what it points to when it is
handed out. -/
inductive Event (T E : Type) where
  | shutdown
  | data (sourceId : Nat) (seq : UInt64) (value : T)
  | external (data : E)
  | control (message : Message)
  | timer (timerId : UInt64)
  deriving DecidableEq

/-- A reader on one of the queues, known there by the id of the source. -/
structure RapidSource where
  sourceId : Nat
  queue : Nat
  deriving DecidableEq, Repr

/-- `queues` are the segments of the shared memory; other processes may read them too.
`controlSocket` holds the messages that wait at the socket. -/
structure Reactor (T E : Type) where
  queues : List (RingSystem T)
  rapidSources : List RapidSource
  controlSocket : Option (List Message)
  channel : List E
  controlRx : Option (List Message)
  timers : TimerManager
  pollCount : UInt64

def controlPollInterval : UInt64 := 1000

/-- What one poll meets: what has been sent to the channel and the socket before it,
how many messages the listener thread has passed on, whether that thread can be
started, and the clock. -/
structure PollInput (E : Type) where
  shutdown : Bool
  external : List E
  control : List Message
  forwarded : Nat
  spawned : Bool
  nowNs : UInt64

section Sources
variable {T E : Type}

def RapidSource.poll (source : RapidSource) (queues : List (RingSystem T)) :
    List (RingSystem T) × Option (Event T E) :=
  match queues[source.queue]? with
  | none => (queues, none)
  | some queue =>
    match queue.readers source.sourceId with
    | none => (queues, none)
    | some slot =>
      let result := queue.ring.tryRead slot
      (queues.set source.queue (queue.received source.sourceId result),
       result.2.map fun seq => .data source.sourceId seq (result.1.load seq))

/-- The loop over the sources ends at the first that has data. -/
def pollSources (queues : List (RingSystem T)) :
    List RapidSource → List (RingSystem T) × Option (Event T E)
  | [] => (queues, none)
  | source :: sources =>
    match source.poll queues with
    | (queues, some event) => (queues, some event)
    | (queues, none) => pollSources queues sources

end Sources

namespace Reactor
variable {T E : Type}

def new (queues : List (RingSystem T)) : Reactor T E := ⟨queues, [], none, [], none, .default, 0⟩

/-- The source id is the number of sources before. -/
def addRapidReader (r : Reactor T E) (queue : Nat) : Reactor T E × Nat :=
  ({ r with
      queues := r.queues.modify queue fun ring => ring.step (.connect r.rapidSources.length)
      rapidSources := r.rapidSources ++ [⟨r.rapidSources.length, queue⟩] },
   r.rapidSources.length)

def setControlSocket (r : Reactor T E) : Reactor T E := { r with controlSocket := some [] }

def addTimer (r : Reactor T E) (timerId dueNs : UInt64) : Reactor T E :=
  { r with timers := r.timers.addTimer timerId dueNs }

/-- What other threads do before a poll. A listener takes messages from the socket. -/
def arrive (r : Reactor T E) (input : PollInput E) : Reactor T E :=
  let waiting := r.controlSocket.map (· ++ input.control)
  match r.controlRx, waiting with
  | some received, some messages =>
    { r with
      channel := r.channel ++ input.external
      controlSocket := some (messages.drop input.forwarded)
      controlRx := some (received ++ messages.take input.forwarded) }
  | _, _ => { r with channel := r.channel ++ input.external, controlSocket := waiting }

/-- A listener is there once `controlRx` is; starting its thread may fail. -/
def ensureControlListener (r : Reactor T E) (spawned : Bool) : Reactor T E :=
  if r.controlRx.isSome then r
  else if r.controlSocket.isSome && spawned then { r with controlRx := some [] }
  else r

def pollTimers (r : Reactor T E) (nowNs : UInt64) : Reactor T E × Option (Event T E) :=
  ({ r with timers := (r.timers.pollDue nowNs).1 }, (r.timers.pollDue nowNs).2.map .timer)

/-- The end of a poll that has found nothing yet: every thousandth goes on. -/
def pollCounted (r : Reactor T E) (nowNs : UInt64) : Reactor T E × Option (Event T E) :=
  let r := { r with pollCount := r.pollCount + 1 }
  if r.pollCount % controlPollInterval = 0 then
    match r.controlRx, r.controlSocket with
    | none, some (message :: messages) =>
      ({ r with controlSocket := some messages }, some (.control message))
    | _, _ => r.pollTimers nowNs
  else (r, none)

def pollChannels (r : Reactor T E) (nowNs : UInt64) : Reactor T E × Option (Event T E) :=
  match r.channel, r.controlRx with
  | data :: channel, _ => ({ r with channel := channel }, some (.external data))
  | [], some (message :: messages) =>
    ({ r with controlRx := some messages }, some (.control message))
  | [], _ => r.pollCounted nowNs

def poll (r : Reactor T E) (input : PollInput E) : Reactor T E × Option (Event T E) :=
  if input.shutdown then (r, some .shutdown)
  else
    let r := r.ensureControlListener input.spawned
    match pollSources r.queues r.rapidSources with
    | (queues, some event) => ({ r with queues := queues }, some event)
    | (queues, none) => { r with queues := queues }.pollChannels input.nowNs

/-- One pass of an event loop, with what happens around it. -/
def step (r : Reactor T E) (input : PollInput E) : Reactor T E × Option (Event T E) :=
  (r.arrive input).poll input

/-- Successive passes and what each of them answers. -/
def pollAll (r : Reactor T E) : List (PollInput E) → Reactor T E × List (Option (Event T E))
  | [] => (r, [])
  | input :: inputs =>
    ((pollAll (r.step input).1 inputs).1, (r.step input).2 :: (pollAll (r.step input).1 inputs).2)

end Reactor

end Nnxt.Polling
