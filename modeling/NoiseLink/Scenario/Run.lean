import NoiseLink.Scenario.Ciphers
import NoiseLink.Scenario.Handshakes
import NoiseLink.Scenario.Networks

/-! Running a scenario: every step is answered, and the scenario goes on after those that fail. -/
namespace NoiseLink.Scenario

open Attempt Play Script

/-- Drops an object and the ends of the channel of that name. -/
def drop (who : String) : Script Answer := do
  let w ← world
  if (← object? who).isNone && (w.sinks.get? who).isNone && (w.sources.get? who).isNone then absent
  dropObject who
  dropEnds who
  return .done

def advance (milliseconds : Nat) : Script Answer := do
  onFabric (·.advance (.ofMilliseconds milliseconds))
  return .done

def perform : Step → Script Answer
  | .initiator staticKey remote name => startInitiator staticKey remote name
  | .responder staticKey name => startResponder staticKey name
  | .actOne ephemeral who save => actOne ephemeral who save
  | .receiveActOne act who => receiveActOne act who
  | .actTwo ephemeral who save => actTwo ephemeral who save
  | .actThree act who save => actThree act who save
  | .receiveActThree act who => receiveActThree act who
  | .cipher key chainingKey name => startCipher key chainingKey name
  | .encrypt data count who save => encrypt data count who save
  | .decrypt data count who save => decrypt data count who save
  | .transfer data count origin target => transfer data count origin target
  | .rotate count who => rotate count who
  | .inspect who => inspect who
  | .channel maxRead faults name => makeChannel maxRead faults name
  | .rawSend data who => rawSend data who
  | .rawClose who => rawClose who
  | .rawReceive size who save => rawReceive size who save
  | .rawDrain size who save => rawDrain size who save
  | .upgrade side config generator sink source name =>
    startUpgrade side config generator sink source name
  | .poll who => pollUpgrade who
  | .connection ciphers sink source name => joinConnection ciphers sink source name
  | .split who => split who
  | .send data count who => send data count who
  | .write data count who => write data count who
  | .close who => close who
  | .read size who => read size who
  | .receive who => receive who
  | .readAll size who => readAll size who
  | .receiveAll who => receiveAll who
  | .drop who => drop who
  | .advance milliseconds => advance milliseconds
  | .network maxRead name => makeNetwork maxRead name
  | .bind through generator address config maxHandshakes name =>
    bind through generator address config maxHandshakes name
  | .dial through config address peer generator name =>
    dial through config address peer generator name
  | .rawDial through address name => rawDial through address name
  | .acceptError through address cause => acceptError through address cause
  | .accept who name => accept who name

def run (steps : List Step) : List (Outcome Answer) := outcomes (steps.map perform) {}

end NoiseLink.Scenario
