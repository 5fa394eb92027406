import NoiseLink.Tcp.State

/-! The steps that make encrypted connections and use them. -/
namespace NoiseLink.Tcp

open Scenario (Excerpt KeyGiven PeerGiven Pieces)
open Attempt Scenario.Play

def listen (staticKey : KeyGiven) (generator : Generator) (settings : List Setting)
    (name : String) : Script Answer := do
  let staticKey ← check staticKey.key
  let listener : Listener Nat :=
    { config := { staticKey }, maxHandshakes := Listener.defaultMaxHandshakes }
  store name (.service { config := .ofSettings settings, listener, generator })
  return .key staticKey.publicKey

def connect (staticKey : KeyGiven) (peer : PeerGiven) (generator : Generator)
    (settings : List Setting) (target name acceptName : String) : Script Answer := do
  let staticKey ← check staticKey.key
  let peer ← check peer.key
  let .service service ← object target | absent
  let keys : NoiseLink.Config := { staticKey }
  check (Upgrade.checkPeer keys peer)
  let config := Config.ofSettings settings
  let (near, service, sockets) := service.connect (← world)
  let dialer : Dialer := { config, keys, peer, generator, near }
  let (meeting, events, service, sockets) :=
    dialer.meet Dialer.maxTurns .connecting service sockets []
  put target (.service service)
  change fun _ => sockets
  report events
  match meeting with
  | .refused cause => throw (.error cause)
  | .broken fault => throw (.fault fault)
  | .stalled => throw (.error (.network .timeout))
  | .met dialer accepted port =>
    store name (.connection dialer near config)
    store acceptName (.connection accepted port service.config)
    return .connected host dialer.remoteStatic accepted.remoteStatic

def withSender (who : String)
    (operation : Sink Sockets → Sender → Sockets → Poll (Except Error α) × Sender × Sockets) :
    Script (Poll α) := do
  let .connection c socket config ← object who | absent
  let (answer, sender) ← operate fun s =>
    let (answer, sender, s) := operation (Sockets.sink socket) c.sender s
    ((answer, sender), s)
  put who (.connection { c with sender } socket config)
  reportRotations c.sender.cipher sender.cipher
  finish answer

def withReceiver (who : String)
    (operation : Source Sockets → Receiver → Sockets → Poll (Except Error α) × Receiver × Sockets) :
    Script (Poll α) := do
  let .connection c socket config ← object who | absent
  let (answer, receiver) ← operate fun s =>
    let (answer, receiver, s) := operation (Sockets.source socket (reading config)) c.receiver s
    ((answer, receiver), s)
  put who (.connection { c with receiver } socket config)
  reportRotations c.receiver.cipher receiver.cipher
  finish answer

/-- The value of a call that cannot have to wait. -/
def settled (answer : Poll α) : Script α :=
  match answer with
  | .ready value => pure value
  | .pending => throw (.error (.network .timeout))

def send (payload : Payload) (who : String) : Script Answer := do
  settled (← withSender who fun sink => Sender.send sink payload.bytes)
  return .done

def write (payload : Payload) (who : String) : Script Answer := do
  return .count (← settled (← withSender who fun sink => Sender.write sink payload.bytes))

def close (who : String) : Script Answer := do
  settled (← withSender who Sender.close)
  return .done

def receive (who : String) : Script Answer := do
  return .bytes (Excerpt.ofBytes (← settled (← withReceiver who Receiver.receive)))

def read (size : Nat) (who : String) : Script Answer := do
  let bytes ← settled (← withReceiver who fun source => Receiver.read source size)
  return .received bytes.length (Excerpt.ofBytes bytes)

/-- Reads until at least `missing` bytes have come or the stream ends. -/
def readPieces (size : Nat) (who : String) : Nat → Array Bytes → Script (Array Bytes)
  | 0, pieces => return pieces
  | missing + 1, pieces => do
    let bytes ← settled (← withReceiver who fun source => Receiver.read source size)
    if bytes.isEmpty then return pieces
    readPieces size who (missing + 1 - bytes.length) (pieces.push bytes)
termination_by missing => missing
decreasing_by rename_i some; simp at some; have := List.length_pos_iff.2 some; omega

def readAll (size total : Nat) (who : String) : Script Answer := do
  return .readOut (Pieces.ofArray (← readPieces size who total #[]))

end NoiseLink.Tcp
