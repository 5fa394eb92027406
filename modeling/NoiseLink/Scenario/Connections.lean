import NoiseLink.Scenario.Streams

/-! The steps that make encrypted connections and use them. A handshake that has to wait is kept as an
object; a read that has to wait is given up, and so is a write, which ends its sender. -/
namespace NoiseLink.Scenario

open Memory (Fabric Port)
open Attempt Play Script

/-- One attempt to complete a handshake on the ends at a port. One that fails drops them. -/
def attempt (name : String) (upgrade : Upgrade) (port : Port) : Script Answer := do
  let (answer, upgrade) ← withFabric fun f =>
    let (answer, upgrade, f) :=
      upgrade.poll (Fabric.sink port.sink) (Fabric.source port.source .caller) f.now f
    ((answer, upgrade), f)
  match answer with
  | .pending =>
    store name (.upgrade upgrade port)
    return .pending
  | .ready (.ok connection) =>
    report [upgrade.role.completed connection.remoteStatic]
    store name (.connection connection port)
    return .connected connection.remoteStatic
  | .ready (.error cause) =>
    onFabric (·.shut port.sink)
    throw (.error cause)

def ConfigGiven.config (given : ConfigGiven) : Except Error Config := do
  let staticKey ← given.staticKey.key
  return match given.handshakeTimeout with
    | some ms => { staticKey, handshakeTimeout := .ofMilliseconds ms }
    | none => { staticKey }

/-- Begins a handshake with a fresh key, on ends that are dropped if it cannot begin. -/
def beginUpgrade (name : String) (port : Port) (generator : Generator)
    (refusal : Except Error Unit) (upgrade : PrivateKey → Upgrade) : Script Answer := do
  if let .error cause := refusal then
    onFabric (·.shut port.sink)
    throw (.error cause)
  let some (ephemeral, _) := PrivateKey.generate? generator
    | onFabric (·.shut port.sink)
      throw (.fault .exhausted)
  attempt name (upgrade ephemeral) port

def startUpgrade (side : Side) (given : ConfigGiven) (generator : Generator)
    (sinkName sourceName name : String) : Script Answer := do
  let config ← check given.config
  match side with
  | .dialer peer =>
    let peer ← check peer.key
    let port ← takeEnds sinkName sourceName
    beginUpgrade name port generator (Upgrade.checkPeer config peer) (Upgrade.dialer config peer)
  | .listener =>
    let port ← takeEnds sinkName sourceName
    beginUpgrade name port generator (.ok ()) (Upgrade.listener config)

def pollUpgrade (who : String) : Script Answer := do
  let .upgrade upgrade port ← object who | absent
  consume who
  attempt who upgrade port

/-- Joins ciphers, which are consumed, with the ends of channels. -/
def joinConnection (given : CiphersGiven) (sinkName sourceName name : String) : Script Answer := do
  let connection ← match given with
    | .session session => do
      let .session s ← object session | absent
      pure (Connection.ofSession s)
    | .pair remote outgoing incoming => do
      let remote ← check remote.key
      if outgoing = incoming then absent
      let .cipher sending ← object outgoing | absent
      let .cipher receiving ← object incoming | absent
      pure (Connection.ofCiphers remote sending receiving)
  let port ← takeEnds sinkName sourceName
  match given with
  | .session session => consume session
  | .pair _ outgoing incoming =>
    consume outgoing
    consume incoming
  store name (.connection connection port)
  return .connected connection.remoteStatic

def split (who : String) : Script Answer := do
  let .connection connection port ← object who | absent
  consume who
  store (who ++ ".tx") (.sender connection.sender port.sink)
  store (who ++ ".rx") (.receiver connection.receiver port.source)
  return .done

def withSender (who : String)
    (operation : Sink Fabric → Sender → Fabric → Poll (Except Error α) × Sender × Fabric) :
    Script (Poll α) := do
  let run (sink : Nat) (before : Sender) (keep : Sender → Object) : Script (Poll α) := do
    let (answer, after) ← withFabric fun f =>
      let (answer, after, f) := operation (Fabric.sink sink) before f
      ((answer, after), f)
    put who (keep after)
    reportRotations before.cipher after.cipher
    finish answer
  match ← object who with
  | .connection c port => run port.sink c.sender fun sender => .connection { c with sender } port
  | .sender half sink => run sink half fun half => .sender half sink
  | _ => absent

def withReceiver (who : String)
    (operation : Source Fabric → Receiver → Fabric → α × Receiver × Fabric) : Script α := do
  let run (source : Nat) (before : Receiver) (keep : Receiver → Object) : Script α := do
    let (answer, after) ← withFabric fun f =>
      let (answer, after, f) := operation (Fabric.source source .caller) before f
      ((answer, after), f)
    put who (keep after)
    reportRotations before.cipher after.cipher
    return answer
  match ← object who with
  | .connection c port => run port.source c.receiver fun receiver => .connection { c with receiver } port
  | .receiver half source => run source half fun half => .receiver half source
  | _ => absent

def send (data : Data) (count : Nat) (who : String) : Script Answer := do
  let message ← bytes data
  discard (withSender who fun _ s f => (.ready (.ok ()), s, f))
  for _ in List.range count do
    if let .pending ← withSender who fun sink => Sender.send sink message then return .pending
  return .done

def write (data : Data) (count : Nat) (who : String) : Script Answer := do
  let text ← bytes data
  discard (withSender who fun _ s f => (.ready (.ok ()), s, f))
  let mut total := 0
  for _ in List.range count do
    match ← withSender who fun sink => Sender.write sink text with
    | .ready written => total := total + written
    | .pending => return .pending
  return .count total

def close (who : String) : Script Answer := do
  return answerDone (← withSender who Sender.close)

def answerRead (answer : Poll α) (shown : α → Answer) : Answer :=
  match answer with
  | .ready value => shown value
  | .pending => .pending

def read (size : Nat) (who : String) : Script Answer := do
  let answer ← withReceiver who fun source => Receiver.read source size
  return answerRead (← finish answer) fun bytes => .received bytes.length (Excerpt.ofBytes bytes)

def receive (who : String) : Script Answer := do
  let answer ← withReceiver who Receiver.receive
  return answerRead (← finish answer) fun message => .message (Excerpt.ofBytes message)

def answerAll (read : Array Bytes × Stop Error) : Answer :=
  .readOut (Pieces.ofArray read.1) (read.2.map .error)

/-- Reads until there is no more, at least one byte at a time. -/
def readAll (size : Nat) (who : String) : Script Answer := do
  return answerAll (← withReceiver who fun source r f =>
    let (pieces, stop, r, f) := r.readAll source (max 1 size) #[] f
    ((pieces, stop), r, f))

def receiveAll (who : String) : Script Answer := do
  return answerAll (← withReceiver who fun source r f =>
    let (messages, stop, r, f) := r.receiveAll source #[] f
    ((messages, stop), r, f))

end NoiseLink.Scenario
