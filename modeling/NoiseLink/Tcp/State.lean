import NoiseLink.Scenario.Scene
import NoiseLink.Tcp.Service
import NoiseLink.Tcp.Step

/-! What a scenario on sockets holds between two steps. Nothing else happens while a step runs, so one
that waits for what is not there waits until its time is up. -/
namespace NoiseLink.Tcp

open Scenario (Droppable Play)
open Attempt Scenario.Play

inductive Object where
  | socketListener (config : Config) (backlog : Backlog)
  | service (service : Service)
  /-- A sink and a stream on one socket, as far as they were not dropped. -/
  | raw (sink stream : Bool) (socket : Nat) (config : Config)
  | plain (socket : Nat)
  | connection (connection : Connection) (socket : Nat) (config : Config)

instance : Droppable Object Sockets where
  release
    | .raw _ _ socket _, s | .plain socket, s | .connection _ socket _, s => s.close socket
    | .service service, s => service.release s
    | .socketListener _ backlog, s => backlog.refuse s

abbrev Script := Play Sockets Object

def host : String := "127.0.0.1"

/-- How a stream of this scenario reads. -/
def reading (c : Config) : Sockets.Reading := ⟨c.readBufferSize, true⟩

def pause : Script Unit := change Sockets.pause

/-- A buffer to read ahead into has to hold something; else the step ends and loses its ends. -/
def checkBuffer (c : Config) (ends : List Nat) : Script Unit := do
  if c.readBufferSize = 0 then
    change fun s => ends.foldl (fun s i => s.close i) s
    throw (.fault .zeroCapacity)

end NoiseLink.Tcp
