import NoiseLink.Echo.Chance
import NoiseLink.Echo.Surroundings

/-! The echo program as a client. It sends its messages one by one, and each has to come back
unchanged, in whatever pieces, before the next is sent. -/
namespace NoiseLink.Echo

open Tcp (Sockets)

/-- What has come back of a message. -/
inductive Heard where
  | all (bytes : Bytes)
  | waiting (got : Array UInt8)
  | ended
  | failed (error : Error)

/-- Reads until `size` bytes are there, asking for no more than are missing. -/
def hear (source : Source ω) (size : Nat) (got : Array UInt8) (r : Receiver) (w : ω) :
    Heard × Receiver × ω :=
  if _short : got.size < size then
    match r.read source (size - got.size) w with
    | (.pending, r, w) => (.waiting got, r, w)
    | (.ready (.error error), r, w) => (.failed error, r, w)
    | (.ready (.ok []), r, w) => (.ended, r, w)
    | (.ready (.ok (byte :: bytes)), r, w) => hear source size (got ++ byte :: bytes) r w
  else (.all got.toList, r, w)
termination_by size - got.size
decreasing_by rw [size_append_cons]; omega

/-- A message has to come back unchanged. A wait can only run out of time. -/
def Heard.verdict (message : Bytes) : Heard → Except Crash Unit
  | all bytes => if bytes = message then .ok () else .error .mismatch
  | waiting _ => .error (.receive (.network .timeout))
  | ended => .error .serverClosed
  | failed error => .error (.receive error)

/-- What a run has done so far. -/
structure Progress where
  surroundings : Surroundings
  log : Array Entry := #[]
  near : Option Nat := none

/-- Part of a run. A crash keeps what was done before it. -/
abbrev Run := ExceptT Crash (StateM Progress)

namespace Run

def report (entry : Entry) : Run Unit :=
  modify fun progress => { progress with log := progress.log.push entry }

def yield : Run Unit :=
  modify fun progress => { progress with surroundings := progress.surroundings.react }

/-- A call on the sockets. Its failure is a crash, and so is a wait, which can only run out of time. -/
def call (crash : Error → Crash) (step : Sockets → Poll (Except Error α) × β × Sockets) :
    Run (α × β) := do
  let progress ← get
  let (answer, half, sockets) := step progress.surroundings.sockets
  set { progress with surroundings := { progress.surroundings with sockets } }
  match answer with
  | .ready (.ok value) => return (value, half)
  | .ready (.error error) => throw (crash error)
  | .pending => throw (crash (.network .timeout))

/-- Connects to the peer and completes a handshake. -/
def dial (config : Config) (peer : PublicKey) (ephemeral : PrivateKey) (address : SocketAddress) :
    Run (Nat × Connection) := do
  let progress ← get
  match progress.surroundings.dial config peer ephemeral address.port with
  | (.error error, surroundings) =>
    set { progress with surroundings }
    throw (.dial error)
  | (.ok (connection, near), surroundings) =>
    set { progress with surroundings, near := some near }
    report (.event (.dialerCompleted peer))
    return (near, connection)

/-- Takes back a message. -/
def takeBack (near : Nat) (message : Bytes) (r : Receiver) : Run Receiver := do
  let progress ← get
  let (heard, receiver, sockets) :=
    hear (Sockets.source near reading) message.length #[] r progress.surroundings.sockets
  set { progress with surroundings := { progress.surroundings with sockets } }
  match heard.verdict message with
  | .ok () => return receiver
  | .error crash => throw crash

def exchange (near : Nat) (message : Bytes) (c : Connection) : Run Connection := do
  let (_, sender) ← call .send (c.sender.write (Sockets.sink near) message)
  yield
  let receiver ← takeBack near message c.receiver
  return { c with sender, receiver }

/-- Exchanges so many messages, and gives the number of bytes exchanged. -/
def exchangeAll (near : Nat) (message : Nat → Bytes) :
    (count index total : Nat) → Connection → Run (Nat × Connection)
  | 0, _, total, c => return (total, c)
  | count + 1, index, total, c => do
    let bytes := message index
    let c ← exchange near bytes c
    report (.echoed index bytes.length)
    exchangeAll near message count (index + 1) (total + bytes.length) c

def client (chance : Chance) (config : Config) (peer : PublicKey) (address : SocketAddress)
    (messages : Nat) : Run Unit := do
  let (near, c) ← dial config peer chance.ephemeral address
  report (.connected peer (shownAddress address))
  let (total, c) ← exchangeAll near chance.message messages 0 0 c
  discard (call .close (c.sender.close (Sockets.sink near)))
  report (.allEchoed messages total)

end Run
end NoiseLink.Echo
