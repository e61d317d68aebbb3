import Nnxt.ActorRegistry

/-!
# The master

One request is answered at a time. A command for another actor leaves on the
control socket of that actor; what the sockets do is an argument.
-/

namespace Nnxt

set_option autoImplicit false

inductive Request where
  | register (actor : ActorRegistration)
  | registerQueue (actorId : String) (queue : QueueInfo) (targetActor : Option String)
  | unregister (actorId : String)
  | heartbeat (actorId : String)
  | lookupQueue (queueAddr : String)
  | findQueues (queueType : String)
  | findQueuesByActor (actorType queueType : String)
  | connectTrade (targetType actorId : String)
  | listActors
  | sendCommand (targetActor command : String)
  deriving DecidableEq

inductive ServerError where
  | registry (error : RegistryError)
  | missingControlQueue (actorId : String)
  | socketCreate
  | dial (addr : String)
  | send (actorId : String)
  deriving DecidableEq, Repr

inductive Response where
  | ok
  | error (error : ServerError)
  | actorList (actors : List ActorSnapshot)
  | queueInfo (owner queueType : String)
  | queueList (queues : List QueueInfo)
  | connectTrade (tradeGatewayId orderEventQueue tradeEventQueue : String)
  deriving DecidableEq

structure Command where
  controlAddr : String
  text : String
  deriving DecidableEq, Repr

/-- How far `forward_command` gets with its socket. -/
inductive SocketOutcome where
  | createFailed
  | dialFailed
  | sendFailed
  | sent
  deriving DecidableEq, Repr

structure MasterServer where
  registry : ActorRegistry
  heartbeatTimeoutNs : UInt64

namespace MasterServer
variable (m : MasterServer)

def forwardCommand (targetActor text : String) (socket : SocketOutcome) : Response × List Command :=
  match m.registry.controlQueue targetActor with
  | .error error => (.error (.registry error), [])
  | .ok none => (.error (.missingControlQueue targetActor), [])
  | .ok (some controlAddr) =>
    match socket with
    | .createFailed => (.error .socketCreate, [])
    | .dialFailed => (.error (.dial controlAddr), [])
    | .sendFailed => (.error (.send targetActor), [])
    | .sent => (.ok, [⟨controlAddr, text⟩])

def answer : Except RegistryError Unit → Response
  | .ok _ => .ok
  | .error error => .error (.registry error)

/-- The `ConnectTrade` arm: the gateway first, then its two queues. -/
def connectTrade (targetType : String) : Response :=
  match m.registry.findActorByType targetType with
  | .error error => .error (.registry error)
  | .ok tradeGatewayId =>
    match m.registry.findQueueByOwnerType tradeGatewayId "order-event" with
    | .error error => .error (.registry error)
    | .ok orderEventQueue =>
      match m.registry.findQueueByOwnerType tradeGatewayId "trade-event" with
      | .error error => .error (.registry error)
      | .ok tradeEventQueue => .connectTrade tradeGatewayId orderEventQueue tradeEventQueue

/-- The `RegisterQueue` arm. -/
def registerQueue (actorId : String) (queue : QueueInfo) (targetActor : Option String)
    (socket : SocketOutcome) : MasterServer × Response × List Command :=
  match m.registry.registerQueue actorId queue with
  | (registry, .error error) => ({ m with registry := registry }, .error (.registry error), [])
  | (registry, .ok _) =>
    let m := { m with registry := registry }
    match targetActor with
    | none => (m, .ok, [])
    -- answered at once; whether the command could be sent is not looked at
    | some target =>
      (m, .ok, (m.forwardCommand target ("add_action_queue:" ++ queue.addr) socket).2)

def handleRequest (request : Request) (nowNs : UInt64) (socket : SocketOutcome) :
    MasterServer × Response × List Command :=
  match request with
  | .register actor =>
    let (registry, result) := m.registry.register actor nowNs
    ({ m with registry := registry }, answer result, [])
  | .unregister actorId =>
    let (registry, result) := m.registry.unregister actorId
    ({ m with registry := registry }, answer result, [])
  | .registerQueue actorId queue targetActor => m.registerQueue actorId queue targetActor socket
  | .heartbeat actorId =>
    let (registry, result) := m.registry.recordHeartbeat actorId nowNs
    ({ m with registry := registry }, answer result, [])
  | .lookupQueue queueAddr =>
    match m.registry.lookupQueue queueAddr with
    | .ok (owner, queueType) => (m, .queueInfo owner queueType, [])
    | .error error => (m, .error (.registry error), [])
  | .findQueues queueType => (m, .queueList (m.registry.findQueuesByType queueType), [])
  | .findQueuesByActor actorType queueType =>
    (m, .queueList (m.registry.findQueuesByActorType actorType queueType), [])
  | .connectTrade targetType _ => (m, m.connectTrade targetType, [])
  | .listActors => (m, .actorList m.registry.listActors, [])
  | .sendCommand targetActor command =>
    (m, (m.forwardCommand targetActor command socket).1,
      (m.forwardCommand targetActor command socket).2)

/-- Every message first brings the health of all actors up to date. -/
def handleMessage (request : Request) (nowNs : UInt64) (socket : SocketOutcome) :
    MasterServer × Response × List Command :=
  { m with registry := m.registry.updateHealth nowNs m.heartbeatTimeoutNs }.handleRequest
    request nowNs socket

end MasterServer

end Nnxt
