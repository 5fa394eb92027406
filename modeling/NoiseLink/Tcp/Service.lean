import NoiseLink.Failure
import NoiseLink.Listener
import NoiseLink.Tcp.Backlog
import NoiseLink.Tcp.Config

/-! Listeners on sockets, and a dialer and a listener that meet: both take turns until the handshake
is over, and wait after each of the listener's. -/
namespace NoiseLink.Tcp

/-- A listener with its configuration, its generator and what has arrived for it. -/
structure Service where
  config : Config
  listener : Listener Nat
  generator : Generator
  backlog : Backlog := {}

inductive Acceptance where
  | pending
  | accepted (address : String) (socket : Nat) (connection : Connection)
  | broken (fault : Fault)

namespace Acceptance

def ofOutcome : Listener.Outcome Nat → Acceptance
  | .accepted address socket connection => .accepted address socket connection
  | .exhausted => .broken .exhausted
  | .pending | .failed _ => .pending

end Acceptance

/-- Where connections come from in logs, without the port. -/
def origin : String := "127.0.0.1:*"

namespace Service

def ports (c : Config) : Ports Sockets Nat where
  sink i := Sockets.sink i
  source _ i := Sockets.source i ⟨c.readBufferSize, false⟩
  drop i s := s.close i

/-- A connection to the service: the dialer's end of it. -/
def connect (service : Service) (s : Sockets) : Nat × Service × Sockets :=
  let (near, s) := s.connect
  (near, { service with backlog := service.backlog.arrive (Sockets.peer near) s }, s)

def wake (service : Service) (s : Sockets) : Listener Nat :=
  service.listener.pending.foldl (fun l p => if s.readable p.port then l.wake p.id else l)
    service.listener

/-- A call to accept that takes these ends. -/
def acceptThese (service : Service) (waiting : List Nat) (s : Sockets) :
    Listener.Result Sockets Nat :=
  (service.wake s).accept (ports service.config) 0 service.generator
    (waiting.map fun socket => .ok (origin, socket)) s []

/-- One call to accept. It takes all ends that wait, if it knows of any, and tries the handshakes
that can go on. -/
def accept (service : Service) (s : Sockets) : Acceptance × List Event × Service × Sockets :=
  let noticed := service.backlog.noticed s
  match noticed && service.config.readBufferSize = 0, service.backlog.accept? with
  | true, some (socket, backlog) =>
    (.broken .zeroCapacity, [], { service with backlog }, s.close socket)
  | _, _ =>
    let result := service.acceptThese (if noticed then service.backlog.waiting else []) s
    let backlog : Backlog :=
      match noticed, result.outcome with
      | false, _ => service.backlog
      | true, .exhausted =>
        { service.backlog with
          waiting := service.backlog.waiting.drop
            (service.backlog.waiting.length - result.arrivals.length) }
      | true, _ => {}
    (.ofOutcome result.outcome, result.events,
      { service with listener := result.listener, generator := result.generator, backlog },
      result.state)

/-- Closes what the service has not handed out, as dropping it does. -/
def release (service : Service) (s : Sockets) : Sockets :=
  service.backlog.refuse ((service.listener.pending.map (·.port)).foldl (fun s i => s.close i) s)

end Service

/-- One who dials a service from an end of a connection. -/
structure Dialer where
  config : Config
  keys : NoiseLink.Config
  peer : PublicKey
  generator : Generator
  near : Nat

/-- How far a dialer has got. -/
inductive Dialing where
  | connecting
  | shaking (upgrade : Upgrade)
  | completed (connection : Connection)

/-- How a dialer and a listener meet. -/
inductive Meeting where
  | met (dialer : Connection) (accepted : Connection) (port : Nat)
  | refused (cause : Error)
  | broken (fault : Fault)
  | stalled

namespace Dialer

/-- One attempt to complete the handshake. -/
def shake (d : Dialer) (upgrade : Upgrade) (s : Sockets) :
    Except Meeting Dialing × List Event × Sockets :=
  match upgrade.poll (Sockets.sink d.near) (Sockets.source d.near ⟨d.config.readBufferSize, false⟩)
      0 s with
  | (.ready (.error cause), _, s) => (.error (.refused cause), [], s)
  | (.ready (.ok connection), _, s) =>
    (.ok (.completed connection), [.dialerCompleted connection.remoteStatic], s)
  | (.pending, upgrade, s) => (.ok (.shaking upgrade), [], s)

/-- The dialer's turn. In the first it finds itself connected. -/
def advance (d : Dialer) (dialing : Dialing) (s : Sockets) :
    Except Meeting Dialing × List Event × Sockets :=
  match dialing with
  | .connecting =>
    if d.config.readBufferSize = 0 then (.error (.broken .zeroCapacity), [], s)
    else
      match PrivateKey.generate? d.generator with
      | none => (.error (.broken .exhausted), [], s)
      | some (ephemeral, _) => d.shake (Upgrade.dialer d.keys d.peer ephemeral) s
  | .shaking upgrade => d.shake upgrade s
  | .completed connection => (.ok (.completed connection), [], s)

/-- The turns that a dialer and a listener are given to meet. -/
def maxTurns : Nat := 8

/-- Lets the listener and the dialer take turns, the listener first, since the dialer has just begun
to connect. A dialer that does not get through closes its end. -/
def meet (d : Dialer) : Nat → Dialing → Service → Sockets → List Event →
    Meeting × List Event × Service × Sockets
  | 0, _, service, s, events => (.stalled, events, service, s.close d.near)
  | turns + 1, dialing, service, s, events =>
    let (acceptance, accepting, service, s) := service.accept s
    let events := events ++ accepting
    match acceptance, dialing with
    | .accepted _ port accepted, .completed dialer =>
      (.met dialer accepted port, events, service, s)
    | .accepted _ port _, _ => (.stalled, events, service, (s.close port).close d.near)
    | .broken fault, _ => (.broken fault, events, service, s.close d.near)
    | .pending, _ =>
      match d.advance dialing s.pause with
      | (.error meeting, dialed, s) => (meeting, events ++ dialed, service, s.close d.near)
      | (.ok dialing, dialed, s) => d.meet turns dialing service s (events ++ dialed)

end Dialer
end NoiseLink.Tcp
