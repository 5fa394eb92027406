import NoiseLink.Drain
import NoiseLink.Memory.Fabric
import NoiseLink.Probe.Exchange

/-! A probe of the receiving half of a connection, fed with the frames of a well-behaved peer and with
arbitrary bytes between them. Without such bytes every message arrives; a receiver that has failed
stays so. -/
namespace NoiseLink.Probe

open Memory (Fabric)

inductive Operation where
  | raw (bytes : Bytes)
  | send (message : Bytes)

structure TransportInput where
  key : Octets 32
  chainingKey : Octets 32
  maxRead : Nat
  readSize : Nat
  operations : List Operation

namespace Operation

/-- A 32-bit number whose upper half of values means a message, and the bytes. -/
def decode : Decoder Operation := do
  let choice ← Decoder.number 4
  let bytes ← Decoder.byteList
  return if choice * 2 / (1 <<< 32) = 0 then raw bytes else send bytes

theorem length_decode (bytes : Bytes) : (decode bytes).2.length ≤ bytes.length := by
  have := Decoder.length_byteList (bytes.drop 4)
  simp only [List.length_drop] at this
  exact Nat.le_trans this (Nat.sub_le _ _)

def describe : Operation → String
  | raw bytes => s!"Raw({showBytes bytes})"
  | send message => s!"Send({showBytes message})"

end Operation

namespace TransportInput

/-- With fewer bytes there is nothing to probe. -/
def minimum : Nat := 67

def decode : Decoder TransportInput := do
  return {
    key := ← Decoder.octets 32
    chainingKey := ← Decoder.octets 32
    maxRead := ← Decoder.number 1
    readSize := ← Decoder.number 2
    operations := ← Decoder.list Operation.decode Operation.length_decode }

def describe (input : TransportInput) : String :=
  let operations := ", ".intercalate (input.operations.map Operation.describe)
  s!"FuzzInput \x7b key: {showBytes input.key.bytes}, " ++
    s!"chaining_key: {showBytes input.chainingKey.bytes}, max_read: {input.maxRead}, " ++
    s!"read_size: {input.readSize}, operations: [{operations}] \x7d"

end TransportInput

def maxOperations : Nat := 64

/-- The longest message that is sent, and the largest buffer that is read into. -/
def maxSize : Nat := 4096

/-- The wire to the receiver, the peer's sender and the messages sent so far. -/
structure Transport where
  fabric : Fabric
  peer : Sender
  expected : Bytes := []
  corrupted : Bool := false

namespace Transport

/-- The pipe that the receiver reads from. -/
def wire : Nat := 0

/-- The pipe that the peer writes its frames to. -/
def outbox : Nat := 1

def put (t : Transport) (bytes : Bytes) : Transport :=
  { t with fabric := ((Fabric.sink wire).send bytes t.fabric).2 }

def carryOut (t : Transport) : Operation → Transport
  | .raw bytes => { t.put bytes with corrupted := t.corrupted || !bytes.isEmpty }
  | .send message =>
    let message := message.take maxSize
    let (_, peer, fabric) := t.peer.send (Fabric.sink outbox) message t.fabric
    let (frame, _, fabric) := (Fabric.source outbox .caller).drain maxSize #[] fabric
    { t with fabric, peer, expected := t.expected ++ message }.put frame.toList.flatten

end Transport

def probeReceiver (input : TransportInput) : Except Fault Unit := do
  let fabric : Fabric :=
    { pipes := #[{ channel := { maxRead := some (max input.maxRead 1) } }, {}] }
  let cipher := CipherState.start input.key input.chainingKey
  let t := (input.operations.take maxOperations).foldl Transport.carryOut
    { fabric, peer := Sender.start cipher }
  let fabric := t.fabric.shut Transport.wire
  let source := Fabric.source Transport.wire .caller
  let size := min (max input.readSize 1) maxSize
  let (pieces, stop, receiver, fabric) := (Receiver.start cipher).readAll source size #[] fabric
  let failed := stop matches .failed _
  if !t.corrupted then
    demand (!failed) "!failed"
    demand (pieces.toList.flatten = t.expected) "received"
  if failed then
    demand ((receiver.receive source fabric).1 matches .ready (.error _))
      "receiver.recv().await.is_err()"

/-- Probes the receiver with the input that some bytes stand for, unless there are too few. -/
def probeTransport (bytes : Bytes) : Except Fault (Option TransportInput) := do
  if bytes.length < TransportInput.minimum then return none
  let input := (TransportInput.decode.run bytes).1
  probeReceiver input
  return some input

end NoiseLink.Probe
