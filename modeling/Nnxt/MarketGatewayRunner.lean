import Nnxt.Foundation.Trimming
import Nnxt.GatewayHeartbeats
import Nnxt.InstrumentIds
import Nnxt.Reactor
import Nnxt.TradeHandshake

/-!
# The runner of a market gateway

The event loop of `MarketGatewayRunner` around a gateway that may be anything. Control
messages are texts; what the gateway is told and what is sent out is recorded in order.
-/

namespace Nnxt.GatewayRunner

set_option autoImplicit false

open TradeHandshake (trim isWhiteSpace)
open GatewayHeartbeats (Heartbeats)
open Polling (Message Reactor PollInput)

structure MarketGatewayRunnerConfig where
  queuePath : String
  masterAddr : Option String
  actorId : String
  actorType : String
  heartbeatIntervalNs : UInt64
  controlAddr : Option String

def defaultMarketQueuePath : String := "market/market-gateway/public"

protected def MarketGatewayRunnerConfig.default : MarketGatewayRunnerConfig where
  queuePath := defaultMarketQueuePath
  masterAddr := none
  actorId := "market-gateway"
  actorType := "market-gateway"
  heartbeatIntervalNs := GatewayHeartbeats.defaultHeartbeatIntervalNs
  controlAddr := none

inductive MarketControlCommand where
  | subscribe (instrument : InstrumentId)
  | unsubscribe (instrument : InstrumentId)
  deriving DecidableEq

/-- The errors that the runner of a market gateway meets. -/
inductive RunnerError where
  | master (error : MasterClientError)
  | nng
  | instrument (error : InstrumentIdError)
  | callback (message : String)
  deriving DecidableEq

/-- What a gateway does when it is told something. -/
structure MarketGatewayCallbacks (G : Type) where
  onStart : G → G × Except RunnerError Unit
  onSubscribe : G → InstrumentId → G × Except RunnerError Unit
  onUnsubscribe : G → InstrumentId → G × Except RunnerError Unit
  onStop : G → G × Except RunnerError Unit

/-- What the runner does to the world around it. -/
inductive GatewayCall where
  | register (actor : ActorRegistration)
  | onStart
  | onSubscribe (instrument : InstrumentId)
  | onUnsubscribe (instrument : InstrumentId)
  | onStop
  | reply (payload : String)
  | heartbeat
  deriving DecidableEq

/-- `str::strip_prefix` -/
def stripPrefix (name text : String) : Option String :=
  if name.toList.isPrefixOf text.toList then some (String.ofList (text.toList.drop name.length))
  else none

def parseMarketCommand (command : String) : Except RunnerError MarketControlCommand :=
  match stripPrefix "subscribe:" command with
  | some value =>
    match InstrumentId.fromStr (trim value) with
    | .ok instrument => .ok (.subscribe instrument)
    | .error error => .error (.instrument error)
  | none =>
    match stripPrefix "unsubscribe:" command with
    | some value =>
      match InstrumentId.fromStr (trim value) with
      | .ok instrument => .ok (.unsubscribe instrument)
      | .error error => .error (.instrument error)
    | none => .error (.callback ("unknown control command: " ++ command))

def defaultControlAddr (actorId : String) : String := "ipc:///tmp/" ++ actorId

def resolveControlAddr (config : MarketGatewayRunnerConfig) (needsControl : Bool) : Option String :=
  match config.controlAddr with
  | some addr => some addr
  | none => if needsControl then some (defaultControlAddr config.actorId) else none

/-- `heartbeats` is there when a master is. -/
structure MarketGatewayRunner (G : Type) where
  gateway : G
  config : MarketGatewayRunnerConfig
  heartbeats : Option Heartbeats
  controlAddr : Option String

namespace MarketGatewayRunner
variable {G T E : Type} (callbacks : MarketGatewayCallbacks G)

def new (gateway : G) (config : MarketGatewayRunnerConfig) : MarketGatewayRunner G where
  gateway := gateway
  config := config
  heartbeats := config.masterAddr.map fun _ => ⟨config.actorId, config.heartbeatIntervalNs, 0⟩
  controlAddr := resolveControlAddr config config.masterAddr.isSome

def registration (r : MarketGatewayRunner G) : ActorRegistration where
  actorId := r.config.actorId
  actorType := r.config.actorType
  queues := ⟨r.config.queuePath, "market"⟩ :: r.controlAddr.toList.map fun addr => ⟨addr, "control"⟩

def maybeSendHeartbeat (r : MarketGatewayRunner G) (nowNs : UInt64) :
    MarketGatewayRunner G × List GatewayCall :=
  match r.heartbeats with
  | none => (r, [])
  | some heartbeats =>
    let (heartbeats, sent) := heartbeats.maybeSendHeartbeat nowNs
    ({ r with heartbeats := some heartbeats }, if sent then [.heartbeat] else [])

/-- What the start meets: whether the control socket can listen, the answer of the master,
and the clock after it. -/
structure StartInput where
  listening : Bool
  answer : Except MasterClientError Unit
  nowNs : UInt64

def registerWithMaster (r : MarketGatewayRunner G) (input : StartInput) :
    MarketGatewayRunner G × List GatewayCall × Except RunnerError Unit :=
  match r.heartbeats with
  | none => (r, [], .ok ())
  | some heartbeats =>
    match input.answer with
    | .error error => (r, [.register r.registration], .error (.master error))
    | .ok _ =>
      ({ r with heartbeats := some { heartbeats with lastHeartbeatNs := input.nowNs } },
       [.register r.registration], .ok ())

/-- The socket first, then the registration, and the gateway last. -/
def startWithCtx (r : MarketGatewayRunner G) (input : StartInput) :
    MarketGatewayRunner G × List GatewayCall × Except RunnerError Unit :=
  if r.controlAddr.isSome && !input.listening then (r, [], .error .nng)
  else
    match r.registerWithMaster input with
    | (r, calls, .error error) => (r, calls, .error error)
    | (r, calls, .ok _) =>
      let (gateway, result) := callbacks.onStart r.gateway
      ({ r with gateway := gateway }, calls ++ [.onStart], result)

def perform (gateway : G) : MarketControlCommand → G × Except RunnerError Unit
  | .subscribe instrument => callbacks.onSubscribe gateway instrument
  | .unsubscribe instrument => callbacks.onUnsubscribe gateway instrument

def callOf : MarketControlCommand → GatewayCall
  | .subscribe instrument => .onSubscribe instrument
  | .unsubscribe instrument => .onUnsubscribe instrument

/-- Every message is replied to, whatever it says. -/
def handleControlMessage (gateway : G) (message : Message) : G × List GatewayCall :=
  match fromUtf8 message with
  | .error _ => (gateway, [.reply "error: invalid utf8"])
  | .ok value =>
    match parseMarketCommand (trim value) with
    | .error _ => (gateway, [.reply "error"])
    | .ok command =>
      match perform callbacks gateway command with
      | (gateway, .ok _) => (gateway, [callOf command, .reply "ok"])
      | (gateway, .error _) => (gateway, [callOf command, .reply "error"])

def handleEvent (r : MarketGatewayRunner G) (event : Polling.Event T E) (nowNs : UInt64) :
    MarketGatewayRunner G × List GatewayCall × Except RunnerError Bool :=
  match event with
  | .control message =>
    let (gateway, calls) := handleControlMessage callbacks r.gateway message
    let (r, beats) := { r with gateway := gateway }.maybeSendHeartbeat nowNs
    (r, calls ++ beats, .ok false)
  | .shutdown =>
    let (gateway, result) := callbacks.onStop r.gateway
    ({ r with gateway := gateway }, [.onStop], result.map fun _ => true)
  | _ =>
    let (r, beats) := r.maybeSendHeartbeat nowNs
    (r, beats, .ok false)

end MarketGatewayRunner

/-- A run of `MarketGatewayRunner::run`; `outcome` is what it has returned. -/
structure GatewaySession (T E G : Type) where
  runner : MarketGatewayRunner G
  reactor : Reactor T E
  calls : List GatewayCall
  outcome : Option (Except RunnerError Unit)

/-- One pass: whether the signal has come, what the poll meets, and the clock. -/
structure GatewayPass (E : Type) where
  signalled : Bool
  poll : PollInput E
  nowNs : UInt64

namespace GatewaySession
variable {T E G : Type} (callbacks : MarketGatewayCallbacks G)

def start (gateway : G) (config : MarketGatewayRunnerConfig)
    (input : MarketGatewayRunner.StartInput) : GatewaySession T E G :=
  let (runner, calls, result) :=
    (MarketGatewayRunner.new gateway config).startWithCtx callbacks input
  let reactor : Reactor T E := Reactor.new []
  { runner := runner
    reactor := if runner.controlAddr.isSome then reactor.setControlSocket else reactor
    calls := calls
    outcome :=
      match result with
      | .ok _ => none
      | .error error => some (.error error) }

/-- The loop is left when the gateway is stopped, or fails to stop. -/
def leave (s : GatewaySession T E G) : GatewaySession T E G :=
  let (gateway, result) := callbacks.onStop s.runner.gateway
  { s with
    runner := { s.runner with gateway := gateway }
    calls := s.calls ++ [.onStop]
    outcome := some result }

def step (s : GatewaySession T E G) (pass : GatewayPass E) : GatewaySession T E G :=
  match s.outcome with
  | some _ => s
  | none =>
    if pass.signalled then s.leave callbacks
    else
      match s.reactor.step pass.poll with
      | (reactor, none) =>
        let (runner, beats) := s.runner.maybeSendHeartbeat pass.nowNs
        { s with runner := runner, reactor := reactor, calls := s.calls ++ beats }
      | (reactor, some event) =>
        match s.runner.handleEvent callbacks event pass.nowNs with
        | (runner, calls, .ok false) =>
          { s with runner := runner, reactor := reactor, calls := s.calls ++ calls }
        | (runner, calls, .ok true) =>
          { s with
            runner := runner
            reactor := reactor
            calls := s.calls ++ calls
            outcome := some (.ok ()) }
        | (runner, calls, .error error) =>
          { s with
            runner := runner
            reactor := reactor
            calls := s.calls ++ calls
            outcome := some (.error error) }

end GatewaySession

end Nnxt.GatewayRunner
