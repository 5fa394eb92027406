import NoiseLink.Scenario.Connections

/-! The steps that use the in-memory network: listeners at addresses and dialers that reach them. -/
namespace NoiseLink.Scenario

open Memory (Port)
open Attempt Play Script

def network (name : String) : Script Nat := do
  let .network id ← object name | absent
  return id

def makeNetwork (maxRead : Option Nat) (name : String) : Script Answer := do
  let id ← withFabric (·.addNetwork maxRead)
  store name (.network id)
  return .done

def bind (networkName : String) (generator : Generator) (address : SocketAddress)
    (given : ConfigGiven) (maxHandshakes : Option Nat) (name : String) : Script Answer := do
  let id ← network networkName
  let config ← check given.config
  let listener : Listener Port :=
    { config, maxHandshakes := maxHandshakes.getD Listener.defaultMaxHandshakes }
  match (← world).fabric.bind id address listener generator with
  | .error cause => throw (.error (.network cause))
  | .ok (listener, fabric) =>
    onFabric fun _ => fabric
    store name (.listener listener)
    return .bound address config.staticKey.publicKey

def reach (id : Nat) (address : SocketAddress) : Script (Except NetworkError Port) := do
  let fabric := (← world).fabric
  match fabric.connect id address with
  | .error cause => return .error cause
  | .ok (port, connected) =>
    if (fabric.networks[id]?.bind (·.maxRead)) = some 0 then throw (.fault .zeroReadLimit)
    onFabric fun _ => connected
    return .ok port

def dial (networkName : String) (given : ConfigGiven) (address : SocketAddress) (peer : PeerGiven)
    (generator : Generator) (name : String) : Script Answer := do
  let id ← network networkName
  let config ← check given.config
  let peer ← check peer.key
  check (Upgrade.checkPeer config peer)
  match ← reach id address with
  | .error cause => throw (.error (.network cause))
  | .ok port => beginUpgrade name port generator (.ok ()) (Upgrade.dialer config peer)

def rawDial (networkName : String) (address : SocketAddress) (name : String) : Script Answer := do
  let id ← network networkName
  match ← reach id address with
  | .error cause => throw (.network cause)
  | .ok port =>
    storeEnds name port
    return .done

def acceptError (networkName : String) (address : SocketAddress) (cause : NetworkError) :
    Script Answer := do
  let id ← network networkName
  let listener ← require ((← world).fabric.holder? id address)
  onFabric (·.deliver listener (.error cause))
  return .done

def accept (who name : String) : Script Answer := do
  let .listener id ← object who | absent
  let (outcome, events, fabric) ← require ((← world).fabric.accept id)
  onFabric fun _ => fabric
  report events
  match outcome with
  | .pending => return .pending
  | .accepted address port connection =>
    store name (.connection connection port)
    return .accepted address connection.remoteStatic
  | .failed cause => throw (.error (.network cause))
  | .exhausted => throw (.fault .exhausted)

end NoiseLink.Scenario
