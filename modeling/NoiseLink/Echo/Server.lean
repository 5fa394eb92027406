import NoiseLink.Echo.Job
import NoiseLink.Echo.Relay
import NoiseLink.Tcp.Service

/-! The echo server: it accepts everybody and writes back every byte it reads. It works on until it
would have to wait. -/
namespace NoiseLink.Echo

open Tcp (Service Sockets)

def readBufferSize : Nat := 16 * 1024

/-- How a stream of either program reads. -/
def reading : Sockets.Reading := ⟨({} : Tcp.Config).readBufferSize, false⟩

structure Task where
  relay : Relay
  socket : Nat

structure Server where
  service : Service
  tasks : List Task := []
  log : Array Entry := #[]

namespace Task

def entry (relay : Relay) : Relay.Ending → Entry
  | .closed => .closed relay.connection.remoteStatic Tcp.origin relay.total
  | .readFailed error => .readFailed error relay.connection.remoteStatic Tcp.origin
  | .writeFailed error => .writeFailed error relay.connection.remoteStatic Tcp.origin

/-- Serves a connection as far as its client has got; one that is over leaves only a report. -/
def advance (t : Task) (s : Sockets) : Except Entry Task × Sockets :=
  match t.relay.advance (Sockets.duplex t.socket reading) readBufferSize s with
  | (none, relay, s) => (.ok { t with relay }, s)
  | (some ending, relay, s) => (.error (entry relay ending), s.close t.socket)

end Task

namespace Server

def start (config : Config) (generator : Generator) : Server :=
  { service :=
      { config := {}
        listener := { config, maxHandshakes := Listener.defaultMaxHandshakes }
        generator } }

/-- Accepts connections, at most so many, until one would have to be waited for. -/
def acceptAll : Nat → Server → Sockets → Server × Sockets
  | 0, server, s => (server, s)
  | count + 1, server, s =>
    let (acceptance, events, service, s) := server.service.accept s
    let log := server.log ++ events.map Entry.event
    match acceptance with
    | .accepted address socket connection =>
      acceptAll count
        { service
          tasks := server.tasks ++ [⟨⟨connection, 0⟩, socket⟩]
          log := log.push (.accepted connection.remoteStatic address) } s
    | _ => ({ server with service, log }, s)

def serveTasks : List Task → Server → Sockets → Server × Sockets
  | [], server, s => (server, s)
  | task :: rest, server, s =>
    match task.advance s with
    | (.ok task, s) => serveTasks rest { server with tasks := server.tasks ++ [task] } s
    | (.error entry, s) => serveTasks rest { server with log := server.log.push entry } s

/-- Works on until there is nothing to do but wait. It learns of everything that has happened. -/
def react (server : Server) (s : Sockets) : Server × Sockets :=
  let waiting := server.service.backlog.waiting.length + server.service.listener.pending.length
  let (server, s) := acceptAll waiting server s.pause
  serveTasks server.tasks { server with tasks := [] } s

end Server
end NoiseLink.Echo
