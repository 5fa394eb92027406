import NoiseLink.Scenario.Scene
import NoiseLink.Scenario.Step

/-! What a scenario holds between two steps: named objects, the ends of named channels, saved bytes
and the network under them. -/
namespace NoiseLink.Scenario

open Memory (Fabric Port)

inductive Object where
  | initiator (party : Initiator)
  | awaitingActTwo (party : AwaitingActTwo)
  | responder (party : Responder)
  | receivedActOne (party : ReceivedActOne)
  | awaitingActThree (party : AwaitingActThree)
  | session (session : Session)
  | cipher (cipher : CipherState)
  | upgrade (upgrade : Upgrade) (port : Port)
  | connection (connection : Connection) (port : Port)
  | sender (half : Sender) (sink : Nat)
  | receiver (half : Receiver) (source : Nat)
  | network (id : Nat)
  | listener (id : Nat)

structure World where
  fabric : Fabric := {}
  sinks : Names Nat := []
  sources : Names Nat := []
  saved : Names Bytes := []

def Object.release : Object → Fabric → Fabric
  | .upgrade _ port, f | .connection _ port, f => f.shut port.sink
  | .sender _ sink, f => f.shut sink
  | .listener id, f => f.unbind id
  | _, f => f

instance : Droppable Object World where
  release object w := { w with fabric := object.release w.fabric }

abbrev Script := Play World Object

namespace Script

open Attempt Play

def bytes (data : Data) : Script Bytes := do require (data.bytes? (← world).saved.get?)

/-- Bytes that have to be an act. -/
def act (length : Nat) (data : Data) : Script (Octets length) := do
  match Octets.ofBytes? length (← bytes data) with
  | some act => pure act
  | none => throw .actLength

def save (name : Option String) (bytes : Bytes) : Script Unit :=
  match name with
  | some name => change fun w => { w with saved := w.saved.insert name bytes }
  | none => pure ()

def onFabric (f : Fabric → Fabric) : Script Unit := change fun w => { w with fabric := f w.fabric }

def withFabric (operation : Fabric → α × Fabric) : Script α :=
  operate fun w =>
    let (value, fabric) := operation w.fabric
    (value, { w with fabric })

def dropEnds (name : String) : Script Unit := do
  if let some sink := (← world).sinks.get? name then onFabric (·.shut sink)
  change fun w => { w with sinks := w.sinks.erase name, sources := w.sources.erase name }

/-- Stores new ends; those of that name are dropped. -/
def storeEnds (name : String) (port : Port) : Script Unit := do
  dropEnds name
  change fun w =>
    { w with
      sinks := w.sinks.insert name port.sink
      sources := w.sources.insert name port.source }

def sink (name : String) : Script Nat := do require ((← world).sinks.get? name)

def source (name : String) : Script Nat := do require ((← world).sources.get? name)

/-- Takes the sink of one channel and the source of another, or neither. -/
def takeEnds (sinkName sourceName : String) : Script Port := do
  let port : Port := ⟨← sink sinkName, ← source sourceName⟩
  change fun w => { w with sinks := w.sinks.erase sinkName, sources := w.sources.erase sourceName }
  return port

end Script
end NoiseLink.Scenario
