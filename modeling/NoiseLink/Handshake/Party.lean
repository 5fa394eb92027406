import NoiseLink.Handshake.Transcript
import NoiseLink.Key

/-! The three acts by which two parties prove their static keys to each other. Acts one and two are
alike: each brings a fresh key in the clear and a tag that only a holder of the right secret can
make. Act three brings the initiator's static key, sealed. Each party is a type, and every act
turns it into the next, so no act can be left out or repeated. -/
namespace NoiseLink

namespace Handshake

def protocolName : String := "Noise_XK_secp256k1_ChaChaPoly_SHA256"

/-- What both parties hash before anything else. -/
def prologue : String := "lightning"

/-- The only version of the acts. -/
def version : UInt8 := 0

def actOneLength : Nat := 50
def actTwoLength : Nat := 50
def actThreeLength : Nat := 66

/-- The transcript that both parties start from: the responder's static key is known to both. -/
def opening (responder : PublicKey) : Transcript :=
  (Transcript.start (Bytes.ofText protocolName) (Bytes.ofText prologue)).mixHash responder.bytes

/-- Mixes in the secret that a private and a public key share. -/
def mixShared (t : Transcript) (mine : PrivateKey) (theirs : PublicKey) :
    Except Error Transcript := do
  return t.mixKey (← sharedSecret mine theirs).bytes

/-- The tag of an empty text, which proves the key that it was made under. -/
def sealTag (t : Transcript) : Except Error (Octets 16 × Transcript) :=
  match t.encrypt (Octets.zero 0) with
  | (.ok tag, t) => .ok (tag, t)
  | (.error error, _) => .error error

def checkTag (t : Transcript) (tag : Octets 16) : Except Error Transcript :=
  match t.decrypt (n := 0) tag with
  | (.ok _, t) => .ok t
  | (.error error, _) => .error error

def versionOctet : Octets 1 := ⟨[version], rfl⟩

def checkVersion (act : Octets n) : Except Error Unit :=
  let found := act.bytes.headD version
  if found = version then .ok () else .error (.invalidVersion found)

/-- An act that brings a fresh key: version, key and tag. -/
def offer (t : Transcript) (fresh : PrivateKey) (theirs : PublicKey) :
    Except Error (Octets 50 × Transcript) := do
  let key := fresh.publicKey
  let t ← mixShared (t.mixHash key.bytes) fresh theirs
  let (tag, t) ← sealTag t
  return (versionOctet ++ key.encode ++ tag, t)

/-- Takes an act that brings a fresh key, and checks that its tag was made under the secret of
that key and one's own. -/
def accept (t : Transcript) (mine : PrivateKey) (act : Octets 50) :
    Except Error (PublicKey × Transcript) := do
  checkVersion act
  let theirs ← PublicKey.ofBytes (act.window 1 33 (by omega)).bytes
  let t ← mixShared (t.mixHash theirs.bytes) mine theirs
  let t ← checkTag t (act.window 34 16 (by omega))
  return (theirs, t)

end Handshake

/-- What a handshake leaves to either party. -/
structure Session where
  remoteStatic : PublicKey
  outgoing : CipherState
  incoming : CipherState
deriving DecidableEq

def Session.describe (s : Session) : String :=
  "Session \x7b remote_static: " ++ s.remoteStatic.text ++ ", send: " ++ s.outgoing.describe
    ++ ", recv: " ++ s.incoming.describe ++ " \x7d"

structure Initiator where
  staticKey : PrivateKey
  remoteStatic : PublicKey
  transcript : Transcript

/-- An initiator that has sent act one. -/
structure AwaitingActTwo where
  staticKey : PrivateKey
  remoteStatic : PublicKey
  ephemeral : PrivateKey
  transcript : Transcript

namespace Initiator

def start (staticKey : PrivateKey) (remoteStatic : PublicKey) : Initiator :=
  ⟨staticKey, remoteStatic, Handshake.opening remoteStatic⟩

def actOne (i : Initiator) (ephemeral : PrivateKey) : Except Error (Octets 50 × AwaitingActTwo) := do
  let (act, transcript) ← Handshake.offer i.transcript ephemeral i.remoteStatic
  return (act, ⟨i.staticKey, i.remoteStatic, ephemeral, transcript⟩)

end Initiator

/-- Takes act two and answers with act three: the own static key, sealed, and a tag that proves
it. The initiator sends under the first of the two ciphers. -/
def AwaitingActTwo.actThree (i : AwaitingActTwo) (actTwo : Octets 50) :
    Except Error (Octets 66 × Session) := do
  let (theirs, t) ← Handshake.accept i.transcript i.ephemeral actTwo
  match t.encrypt i.staticKey.publicKey.encode with
  | (.error error, _) => throw error
  | (.ok sealed, t) =>
    let t ← Handshake.mixShared t i.staticKey theirs
    let (tag, t) ← Handshake.sealTag t
    let (first, second) := t.split
    return (Handshake.versionOctet ++ sealed ++ tag, ⟨i.remoteStatic, first, second⟩)

structure Responder where
  staticKey : PrivateKey
  transcript : Transcript

/-- A responder that has taken act one. -/
structure ReceivedActOne where
  remoteEphemeral : PublicKey
  transcript : Transcript

/-- A responder that has sent act two. -/
structure AwaitingActThree where
  ephemeral : PrivateKey
  transcript : Transcript

namespace Responder

def start (staticKey : PrivateKey) : Responder :=
  ⟨staticKey, Handshake.opening staticKey.publicKey⟩

def receiveActOne (r : Responder) (actOne : Octets 50) : Except Error ReceivedActOne := do
  let (theirs, transcript) ← Handshake.accept r.transcript r.staticKey actOne
  return ⟨theirs, transcript⟩

end Responder

def ReceivedActOne.actTwo (r : ReceivedActOne) (ephemeral : PrivateKey) :
    Except Error (Octets 50 × AwaitingActThree) := do
  let (act, transcript) ← Handshake.offer r.transcript ephemeral r.remoteEphemeral
  return (act, ⟨ephemeral, transcript⟩)

/-- Takes act three: opens the initiator's static key and checks the tag that proves it. The
responder receives under the first of the two ciphers. -/
def AwaitingActThree.receiveActThree (r : AwaitingActThree) (actThree : Octets 66) :
    Except Error Session := do
  Handshake.checkVersion actThree
  match r.transcript.decrypt (n := 33) (actThree.window 1 49 (by omega)) with
  | (.error error, _) => throw error
  | (.ok key, t) =>
    let remoteStatic ← PublicKey.ofBytes key.bytes
    let t ← Handshake.mixShared t r.ephemeral remoteStatic
    let t ← Handshake.checkTag t (actThree.window 50 16 (by omega))
    let (first, second) := t.split
    return ⟨remoteStatic, second, first⟩

end NoiseLink
