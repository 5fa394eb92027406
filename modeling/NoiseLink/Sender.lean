import NoiseLink.CipherState
import NoiseLink.Wire

/-! The sending half of a connection. Every message is a frame: its length and its bytes, each
sealed on its own. A frame that did not reach the sink whole ends the half for good, because its
place in the cipher is spent. -/
namespace NoiseLink

/-- The most bytes that one frame carries, as its length has two bytes. -/
def maxPayloadLength : Nat := 65535

def lengthPrefixLength : Nat := 2

/-- A sealed length. -/
def headerLength : Nat := lengthPrefixLength + Aead.tagLength

/-- The frame of a payload, and the cipher after it. -/
def CipherState.frame (c : CipherState) (payload : Bytes) : Except Error Bytes × CipherState :=
  match c.encrypt (Bytes.bigEndian lengthPrefixLength payload.length) with
  | (.error error, c) => (.error error, c)
  | (.ok header, c) =>
    match c.encrypt payload with
    | (.error error, c) => (.error error, c)
    | (.ok body, c) => (.ok (header ++ body), c)

structure Sender where
  cipher : CipherState
  terminated : Bool
deriving DecidableEq

namespace Sender

def start (cipher : CipherState) : Sender := ⟨cipher, false⟩

/-- Sends one frame. The half counts as terminated until the sink has taken all of it. -/
def sendFrame (sink : Sink ω) (payload : Bytes) (s : Sender) (w : ω) :
    Poll (Except Error Unit) × Sender × ω :=
  if s.terminated then (.ready (.error .terminated), s, w)
  else
    match s.cipher.frame payload with
    | (.error error, cipher) => (.ready (.error error), ⟨cipher, true⟩, w)
    | (.ok frame, cipher) =>
      match sink.send frame w with
      | (.ready (.ok ()), w) => (.ready (.ok ()), ⟨cipher, false⟩, w)
      | (.ready (.error cause), w) => (.ready (.error (.network cause)), ⟨cipher, true⟩, w)
      | (.pending, w) => (.pending, ⟨cipher, true⟩, w)

/-- Sends a message as one frame. -/
def send (sink : Sink ω) (message : Bytes) (s : Sender) (w : ω) :
    Poll (Except Error Unit) × Sender × ω :=
  if message.length > maxPayloadLength then
    (.ready (.error (.messageTooLarge message.length)), s, w)
  else s.sendFrame sink message w

def sendFrames (sink : Sink ω) : List Bytes → Sender → ω → Poll (Except Error Unit) × Sender × ω
  | [], s, w => (.ready (.ok ()), s, w)
  | payload :: rest, s, w =>
    match s.sendFrame sink payload w with
    | (.ready (.ok ()), s, w) => sendFrames sink rest s w
    | stopped => stopped

/-- Writes bytes as full frames and one that carries the rest; no bytes make no frame. -/
def write (sink : Sink ω) (bytes : Bytes) (s : Sender) (w : ω) :
    Poll (Except Error Nat) × Sender × ω :=
  match sendFrames sink (Bytes.chunks maxPayloadLength bytes) s w with
  | (.ready (.ok ()), s, w) => (.ready (.ok bytes.length), s, w)
  | (.ready (.error error), s, w) => (.ready (.error error), s, w)
  | (.pending, s, w) => (.pending, s, w)

def close (sink : Sink ω) (s : Sender) (w : ω) : Poll (Except Error Unit) × Sender × ω :=
  let s := { s with terminated := true }
  match sink.close w with
  | (.ready (.ok ()), w) => (.ready (.ok ()), s, w)
  | (.ready (.error cause), w) => (.ready (.error (.network cause)), s, w)
  | (.pending, w) => (.pending, s, w)

end Sender
end NoiseLink
