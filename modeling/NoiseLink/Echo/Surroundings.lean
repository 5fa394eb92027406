import NoiseLink.Echo.Peer

/-! Whom the program can reach. There is one port on which something may listen; the program and the
far side take turns, and when both wait, time passes until one of them gives up. -/
namespace NoiseLink.Echo

open Tcp (Sockets)

inductive Far where
  | nobody
  | server (server : Server)
  /-- A peer, with its end of the connection once it has one. -/
  | peer (peer : Peer) (socket : Option Nat)

structure Surroundings where
  port : Nat
  far : Far := .nobody
  sockets : Sockets := {}

namespace Surroundings

def taken (w : Surroundings) (port : Nat) : Bool :=
  match w.far with
  | .nobody => false
  | _ => port == w.port

def connect (w : Surroundings) (port : Nat) : Except NetworkError (Nat × Surroundings) :=
  if port ≠ w.port then .error .connectionFailed
  else
    match w.far with
    | .nobody | .peer _ (some _) => .error .connectionFailed
    | .server server =>
      let (near, service, sockets) := server.service.connect w.sockets
      .ok (near, { w with far := .server { server with service }, sockets })
    | .peer peer none =>
      let (near, sockets) := w.sockets.connect
      .ok (near, { w with far := .peer peer (some (Sockets.peer near)), sockets })

def react (w : Surroundings) : Surroundings :=
  match w.far with
  | .server server =>
    let (server, sockets) := server.react w.sockets
    { w with far := .server server, sockets }
  | .peer peer (some socket) =>
    let (peer, sockets) := peer.react socket w.sockets
    { w with far := .peer peer (some socket), sockets }
  | _ => w

def onSockets (w : Surroundings) (change : Sockets → Sockets) : Surroundings :=
  { w with sockets := change w.sockets }

/-- Closes a near end, which the far side notices. -/
def leave (w : Surroundings) (near : Nat) : Surroundings := react (w.onSockets (Sockets.close near))

/-- The turns that either side of a handshake is given, more than it has acts. -/
def handshakeTurns : Nat := 4

/-- Goes on with a handshake turn by turn. Whichever time runs out first ends one that gets no
further: that of the handshake, or that of a single read. -/
def meet (near : Nat) : Nat → Upgrade → Surroundings → Except Error Connection × Surroundings
  | turns, upgrade, w =>
    let poll (now : Nanoseconds) :=
      upgrade.poll (Sockets.sink near) (Sockets.source near reading) now w.sockets
    match poll 0, turns with
    | (.ready answer, _, sockets), _ => (answer, { w with sockets })
    | (.pending, _, sockets), 0 =>
      let readTimeout := ({} : Tcp.Config).readTimeout
      let cause : Error :=
        if readTimeout < upgrade.timeout then .network .timeout else .handshakeTimeout
      (.error cause, { w with sockets })
    | (.pending, upgrade, sockets), turns + 1 => meet near turns upgrade (react { w with sockets })

def reach (w : Surroundings) (upgrade : Upgrade) (port : Nat) :
    Except Error (Connection × Nat) × Surroundings :=
  match w.connect port with
  | .error cause => (.error (.network cause), w)
  | .ok (near, w) =>
    match meet near handshakeTurns upgrade w with
    | (.ok connection, w) => (.ok (connection, near), w)
    | (.error error, w) => (.error error, w.leave near)

/-- Dials the far side, unless it has the dialer's own key. -/
def dial (w : Surroundings) (config : Config) (peer : PublicKey) (ephemeral : PrivateKey)
    (port : Nat) : Except Error (Connection × Nat) × Surroundings :=
  match Upgrade.checkPeer config peer with
  | .error error => (.error error, w)
  | .ok () => w.reach (Upgrade.dialer config peer ephemeral) port

end Surroundings
end NoiseLink.Echo
