import Nnxt.TradeHandshake
import Nnxt.RingRuns
import Nnxt.Foundation.Transition

/-!
# The trade gateway runner

The runner adds the queues of its configuration, then polls; a control message
sends it back into the loop that adds one. Every add opens a reader of its own on
what the address denotes by then, and every reader is a source of its own. The
queues are created, written and unlinked in between, the slot of an action in hand
is read when `handle_event` copies it.
-/

namespace Nnxt.TradeGatewayRunner

set_option autoImplicit false

open HashMap RingSystem
open TradeHandshake (trim parseTradeCommand)

def actionQueueMaxRetries : Nat := 10

/-- What `Address::new` accepts. -/
def addressAccepted (path : String) : Bool :=
  (path.toList.splitOn '/').all fun segment =>
    segment ≠ [] && segment ≠ ['.'] && segment ≠ ['.', '.'] &&
      segment.all fun ch => ch.isAlphanum || ch = '-' || ch = '_'

/-- `adding` is the loop of `add_action_queue_with_ctx`, called by `start_with_ctx`
with more queues to come or for a control message; `handling` has an event in hand. -/
inductive Phase where
  | adding (addr : String) (attempt : Nat) (startup : Option (List String))
  | polling
  | handling (source : Nat) (seq : UInt64)
  | stopped
  deriving DecidableEq

/-- A call of `on_action`: the source, and the queue and position of the action. -/
structure Call where
  source : Nat
  queue : Nat
  seq : UInt64
  action : Action
  deriving DecidableEq

/-- A queue somebody has created. It outlives its name for those who have it mapped.
No step reads `due`: the address counts as added for the entries from there on. -/
structure Segment where
  addr : String
  queue : RingSystem Action
  due : Option Nat

/-- `names` tells which segment an address denotes, `mapped` which one the reader of
each source has mapped; `starts` records where it started, and no step reads it. -/
structure System where
  names : Map String Nat
  segments : List Segment
  ctx : ActorContext
  mapped : List Nat
  actionSources : Finset Nat
  phase : Phase
  starts : List Nat
  executed : List Call

/-- What `poll` may find besides data. A message is `none` when it is not UTF-8. -/
structure PollInput where
  shutdown : Bool
  external : Bool
  control : Option (Option String)

inductive WriterOp where
  | prepare
  | fill (action : Action)
  | commit
  | write (action : Action)

/-- `unlink` is `cleanup`, the first half of `write_to`, and the drop of a writer. -/
inductive Step where
  | create (addr : String) (capacity : UInt64)
  | unlink (addr : String)
  | writer (n : Nat) (op : WriterOp)
  | attempt
  | poll (input : PollInput)
  | handle (accepted : Bool)

def WriterOp.ringStep : WriterOp → RingStep Action
  | .prepare => .prepare
  | .fill action => .fill action
  | .commit => .commit
  | .write action => .write action

def Segment.step (segment : Segment) (i : RingStep Action) : Segment :=
  { segment with queue := segment.queue.step i }

/-- The first time its address is added, what comes next is due. -/
def Segment.added (segment : Segment) (addr : String) : Segment :=
  if segment.addr = addr then
    { segment with due := some (segment.due.getD segment.queue.log.length) }
  else segment

/-- What `try_read` of a reader would return. -/
def polled (queue : RingSystem Action) (reader : Nat) : Option UInt64 :=
  (queue.readers reader).bind fun slot => (queue.ring.tryRead slot).2

def canConnect (queue : RingSystem Action) : Bool :=
  match queue.ring.connect with
  | .ok _ => true
  | .error _ => false

/-- `start_with_ctx` goes on with the queues left. -/
def beginAdding : List String → Phase
  | [] => .polling
  | addr :: rest => .adding addr 1 (some rest)

namespace System

def start (actionQueues : List String) : System :=
  ⟨∅, [], ActorContext.new, [], ∅, beginAdding actionQueues, [], []⟩

/-- `run` on a runner that was run before: the context is a new one, and the source ids it has
taken for sources of actions are kept. -/
def again (s : System) (actionQueues : List String) : System :=
  { s with
    ctx := ActorContext.new
    mapped := []
    phase := beginAdding actionQueues
    starts := [] }

def queueAt (s : System) (n : Nat) : Option (RingSystem Action) := (s.segments[n]?).map (·.queue)

def stepAt (s : System) (n : Nat) (i : RingStep Action) : List Segment :=
  s.segments.modify n fun segment => segment.step i

/-- What opening the name of an address finds. -/
def find (s : System) (addr : String) : Option (Nat × RingSystem Action) :=
  (s.names.lookup addr).bind fun n => (s.queueAt n).map fun queue => (n, queue)

/-- A name that is there is left alone. -/
def create (s : System) (addr : String) (capacity : UInt64) : System :=
  match addressAccepted addr, s.names.lookup addr,
    Ring.create capacity defaultMaxReaders Action.zeroed with
  | true, none, .ok (ring, writer) =>
    { s with
      names := s.names.insert addr s.segments.length
      segments := s.segments ++ [⟨addr, RingSystem.start ring writer,
        if s.ctx.rapidSources.any (·.addr = addr) then some 0 else none⟩] }
  | _, _, _ => s

def unlink (s : System) (addr : String) : System := { s with names := s.names.erase addr }

def writer (s : System) (n : Nat) (op : WriterOp) : System :=
  { s with segments := s.stepAt n op.ringStep }

/-- A failure ends `start_with_ctx`, and is only answered to a control message. -/
def addFailed (s : System) (startup : Option (List String)) : System :=
  { s with phase := if startup.isSome then .stopped else .polling }

def addSucceeded (s : System) (addr : String) (n : Nat) (queue : RingSystem Action) (source : Nat)
    (startup : Option (List String)) : System :=
  { s with
    segments := (s.stepAt n (.connect source)).map fun segment => segment.added addr
    ctx := (s.ctx.readFrom addr .action true).1
    mapped := s.mapped ++ [n]
    actionSources := insert source s.actionSources
    phase := (startup.map beginAdding).getD .polling
    starts := s.starts ++ [queue.log.length] }

/-- One pass of the loop of `add_action_queue_with_ctx`. -/
def attempt (s : System) : System :=
  match s.phase with
  | .adding addr attempt startup =>
    if addressAccepted addr then
      match s.find addr with
      | none =>
        if attempt = actionQueueMaxRetries then s.addFailed startup
        else { s with phase := .adding addr (attempt + 1) startup }
      | some (n, queue) =>
        match (s.ctx.readFrom addr .action (canConnect queue)).2 with
        | .ok source => s.addSucceeded addr n queue source startup
        | .error _ => s.addFailed startup
    else s.addFailed startup
  | _ => s

def handleControlMessage (s : System) : Option String → System
  | none => s
  | some message =>
    match parseTradeCommand (trim message) with
    | some addr => { s with phase := .adding addr 1 none }
    | none => s

/-- The first source that has data. -/
def pollData (s : System) : Option (Nat × Nat × UInt64) :=
  s.mapped.zipIdx.findSome? fun (n, id) =>
    ((s.queueAt n).bind fun queue => polled queue id).map fun seq => (id, n, seq)

/-- `Reactor::poll` and the events that carry no data. -/
def poll (s : System) (input : PollInput) : System :=
  match s.phase with
  | .polling =>
    if input.shutdown then { s with phase := .stopped }
    else
      match s.pollData with
      | some (source, n, seq) =>
        { s with
          segments := s.stepAt n (.tryRead source)
          phase := .handling source seq }
      | none =>
        if input.external then s
        else
          match input.control with
          | none => s
          | some message => s.handleControlMessage message
  | _ => s

/-- `handle_event` on data; an error of `on_action` ends the runner. -/
def handle (s : System) (accepted : Bool) : System :=
  match s.phase with
  | .handling source seq =>
    if source ∈ s.actionSources then
      match s.mapped[source]? with
      | none => s
      | some n =>
        match s.queueAt n with
        | none => s
        | some queue =>
          { s with
            phase := if accepted then .polling else .stopped
            executed := s.executed ++ [⟨source, n, seq, queue.ring.load seq⟩] }
    else { s with phase := .polling }
  | _ => s

def step (s : System) : Step → System
  | .create addr capacity => s.create addr capacity
  | .unlink addr => s.unlink addr
  | .writer n op => s.writer n op
  | .attempt => s.attempt
  | .poll input => s.poll input
  | .handle accepted => s.handle accepted

/-- The source `i` reads the queue `n` from position `start` on. -/
def Reads (s : System) (i n start : Nat) : Prop :=
  s.mapped[i]? = some n ∧ s.starts[i]? = some start

def callsAt (s : System) (n k : Nat) : List Call :=
  s.executed.filter fun call => call.queue = n ∧ call.seq.toNat = k

/-- What was committed to a queue after its address was first added has been given
to `on_action`, as it was committed and once. -/
def ExecutedOnce (s : System) : Prop :=
  ∀ n segment start k, s.segments[n]? = some segment → segment.due = some start → start ≤ k →
    k < segment.queue.log.length →
    ∃ call, s.callsAt n k = [call] ∧ segment.queue.log[k]? = some call.action

/-- Nothing is in hand and nothing is left to read. -/
structure Drained (s : System) : Prop where
  idle : ∀ source seq, s.phase ≠ .handling source seq
  caughtUp : ∀ p ∈ s.mapped.zipIdx, ∀ queue ∈ s.queueAt p.1,
    queue.cursor p.2 = some queue.log.length

/-- The writer has stored nothing over an entry the reader has not read. -/
def Unlapped (queue : RingSystem Action) (reader : Nat) : Prop :=
  ∀ c ∈ queue.cursor reader, queue.log.length ≤ c + queue.ring.capacity.toNat ∧
    ∀ k < queue.log.length, c ≤ k → ¬ queue.Refilled k

instance (queue : RingSystem Action) (reader : Nat) : Decidable (Unlapped queue reader) :=
  inferInstanceAs (Decidable (∀ c ∈ queue.cursor reader, _ ∧ ∀ k < queue.log.length, c ≤ k → _))

/-- No reader is lapped, and the entry in hand is not overwritten before it is copied. -/
structure NotLapped (s : System) : Prop where
  few : ∀ segment ∈ s.segments, segment.queue.log.length < 2 ^ 64
  unread : ∀ p ∈ s.mapped.zipIdx, ∀ queue ∈ s.queueAt p.1, Unlapped queue p.2
  inHand : ∀ source seq, s.phase = .handling source seq → ∀ n ∈ s.mapped[source]?,
    ∀ queue ∈ s.queueAt n, ¬ queue.Refilled seq.toNat

/-- The operation makes an entry visible to the readers. -/
def Commits (queue : RingSystem Action) : WriterOp → Prop
  | .write _ => True
  | .commit => queue.writer.hasPending = true
  | _ => False

/-- What is committed to a queue whose address has been added is committed while
exactly one source reads that queue. -/
def OneSource (s : System) : Step → Prop
  | .writer n op => ∀ segment, s.segments[n]? = some segment → Commits segment.queue op →
      segment.due ≠ none → ∃! i : Nat, s.mapped[i]? = some n
  | _ => True

/-- In the loop of `run`, and not waiting for a queue to be added. -/
def Running (s : System) : Prop :=
  s.phase = .polling ∨ ∃ source seq, s.phase = .handling source seq

/-- The steps the runner takes by itself while its gateway accepts the actions. -/
def Own : Step → Prop
  | .poll input => input = ⟨false, false, none⟩
  | .handle accepted => accepted = true
  | _ => False

end System

end Nnxt.TradeGatewayRunner
