import Nnxt.ActorContext
import Nnxt.MasterServer
import Nnxt.RingSystem

/-!
# Connecting a strategy to a trade gateway

Three processes: the strategy creates its action queue and registers it, the
master answers and sends `add_action_queue` on, the gateway opens the queue and
polls it. The master answers without waiting for the gateway.
-/

namespace Nnxt.TradeHandshake

set_option autoImplicit false

open RingSystem

structure Config where
  strategyId : String
  gatewayId : String
  gatewayControl : String
  capacity : UInt64
  maxReaders : Nat
  zeroed : Action

def Config.actionPath (cfg : Config) : String := actionQueue cfg.strategyId cfg.gatewayId

/-- Unicode `White_Space`. -/
def isWhiteSpace (c : Char) : Bool :=
  (9 ≤ c.toNat && c.toNat ≤ 13) || (8192 ≤ c.toNat && c.toNat ≤ 8202) ||
    c.toNat ∈ [32, 133, 160, 5760, 8232, 8233, 8239, 8287, 12288]

def trim (text : String) : String :=
  String.ofList ((text.toList.dropWhile isWhiteSpace).reverse.dropWhile isWhiteSpace).reverse

/-- `parse_trade_command` on the trimmed message; `none` is an unknown command. -/
def parseTradeCommand (text : String) : Option String :=
  let name := "add_action_queue:"
  if name.toList.isPrefixOf text.toList then
    some (trim (String.ofList (text.toList.drop name.length)))
  else none

inductive Phase where
  | idle
  | created
  | waiting
  | connected
  | failed
  deriving DecidableEq, Repr

/-- The action queue, what the strategy wrote and what the gateway executed;
`connectedAt` records where the gateway's reader started. -/
structure Channel where
  queue : RingSystem Action
  written : List Action
  executed : List Action
  connectedAt : Option Nat

def gatewayReader : Nat := 0

namespace Channel

def write (c : Channel) (action : Action) : Channel :=
  { c with queue := c.queue.step (.write action), written := c.written ++ [action] }

def connect (c : Channel) : Channel :=
  match c.queue.readers gatewayReader with
  | some _ => c
  | none =>
    let queue := c.queue.step (.connect gatewayReader)
    { c with
      queue := queue
      connectedAt := (queue.readers gatewayReader).map fun _ => c.queue.log.length }

def poll (c : Channel) : Channel :=
  let queue := c.queue.step (.tryRead gatewayReader)
  { c with
    queue := queue
    executed := c.executed ++ (queue.handed.drop c.queue.handed.length).map (·.value) }

end Channel

structure State where
  master : MasterServer
  phase : Phase
  request : Option Request
  reply : Option Response
  commands : List Command
  channel : Option Channel

inductive Step where
  | createQueue
  | sendRegister
  | masterServe (nowNs : UInt64) (socket : SocketOutcome)
  | receiveReply
  | writeAction (action : Action)
  | handleCommand
  | poll

def start (master : MasterServer) : State := ⟨master, .idle, none, none, [], none⟩

section Steps
variable (cfg : Config)

def createQueue (s : State) : State :=
  match s.phase, Ring.create cfg.capacity cfg.maxReaders cfg.zeroed with
  | .idle, .ok (ring, writer) =>
    { s with phase := .created, channel := some ⟨RingSystem.start ring writer, [], [], none⟩ }
  | .idle, .error _ => { s with phase := .failed }
  | _, _ => s

def sendRegister (s : State) : State :=
  if s.phase = .created then
    { s with
      phase := .waiting
      request := some (.registerQueue cfg.strategyId ⟨cfg.actionPath, "action"⟩ (some cfg.gatewayId)) }
  else s

def masterServe (s : State) (nowNs : UInt64) (socket : SocketOutcome) : State :=
  match s.request with
  | none => s
  | some request =>
    let (master, response, commands) := s.master.handleMessage request nowNs socket
    { s with
      master := master
      request := none
      reply := some response
      commands := s.commands ++ commands }

/-- `connect_trade` returns; an error ends the attempt. -/
def receiveReply (s : State) : State :=
  match s.reply with
  | none => s
  | some .ok => { s with reply := none, phase := .connected }
  | some _ => { s with reply := none, phase := .failed }

def writeAction (s : State) (action : Action) : State :=
  if s.phase = .connected then { s with channel := s.channel.map (·.write action) } else s

def handleCommand (s : State) : State :=
  match s.commands with
  | [] => s
  | command :: later =>
    let s := { s with commands := later }
    if command.controlAddr = cfg.gatewayControl ∧
        parseTradeCommand (trim command.text) = some cfg.actionPath then
      { s with channel := s.channel.map (·.connect) }
    else s

def step (s : State) : Step → State
  | .createQueue => createQueue cfg s
  | .sendRegister => sendRegister cfg s
  | .masterServe nowNs socket => masterServe s nowNs socket
  | .receiveReply => receiveReply s
  | .writeAction action => writeAction s action
  | .handleCommand => handleCommand cfg s
  | .poll => { s with channel := s.channel.map (·.poll) }

end Steps

/-- No action is written before the gateway has opened the queue. -/
def WritesAfterConnect (s : State) : Step → Prop
  | .writeAction _ => s.phase = .connected → ∀ c ∈ s.channel, c.connectedAt ≠ none
  | _ => True

/-- Fewer than `capacity` actions are unread. -/
def Unlapped (s : State) : Prop :=
  ∀ c ∈ s.channel, ∀ k ∈ c.queue.cursor gatewayReader,
    c.queue.log.length - k < c.queue.ring.capacity.toNat

instance (s : State) : Decidable (Unlapped s) :=
  inferInstanceAs (Decidable (∀ c ∈ s.channel, ∀ k ∈ c.queue.cursor gatewayReader, _))

def Drained (c : Channel) : Prop :=
  c.queue.cursor gatewayReader = some c.queue.log.length

instance (c : Channel) : Decidable (Drained c) :=
  inferInstanceAs (Decidable (_ = (_ : Option Nat)))

/-- The reader started at the first action, or nothing has been written yet. -/
structure OnTime (c : Channel) : Prop where
  waiting : c.connectedAt = none → c.written = []
  started : ∀ k, c.connectedAt = some k → k = 0

structure Linked (c : Channel) : Prop where
  log : c.queue.log = c.written
  reader : c.connectedAt = none ↔ c.queue.readers gatewayReader = none

/-- What the gateway has executed is what was written since it connected, up to its cursor. -/
structure Delivers (c : Channel) : Prop where
  inv : c.queue.Inv
  settled : c.queue.writer.hasPending = false
  linked : Linked c
  unread : c.connectedAt = none → c.executed = []
  read : ∀ k, c.connectedAt = some k → ∃ n, c.queue.cursor gatewayReader = some n ∧ k ≤ n ∧
    c.executed = (c.written.take n).drop k

end Nnxt.TradeHandshake
