import NoiseLink.Failure
import NoiseLink.Handshake.Party
import NoiseLink.Probe.Decoder

/-! A probe of the handshake with arbitrary acts and with one byte changed on the way. Acts that
nobody made are refused, and a change is noticed by whoever receives the changed act. -/
namespace NoiseLink.Probe

/-- Where a byte is changed: the act, the place in it and the mask that is added. -/
structure Tamper where
  act : UInt8
  index : UInt8
  mask : UInt8

structure ExchangeInput where
  initiatorSeed : UInt64
  responderSeed : UInt64
  ephemeralSeed : UInt64
  actOne : Octets 50
  actTwo : Octets 50
  actThree : Octets 66
  tamper : Option Tamper

namespace ExchangeInput

/-- With fewer bytes there is nothing to probe. -/
def minimum : Nat := 191

def decode : Decoder ExchangeInput := do
  let seed : Decoder UInt64 := return UInt64.ofNat (← Decoder.number 8)
  return {
    initiatorSeed := ← seed
    responderSeed := ← seed
    ephemeralSeed := ← seed
    actOne := ← Decoder.octets 50
    actTwo := ← Decoder.octets 50
    actThree := ← Decoder.octets 66
    tamper := ← Decoder.optional do return ⟨← Decoder.byte, ← Decoder.byte, ← Decoder.byte⟩ }

def describe (input : ExchangeInput) : String :=
  let tamper := match input.tamper with
    | some t => s!"Some(({t.act.toNat}, {t.index.toNat}, {t.mask.toNat}))"
    | none => "None"
  s!"FuzzInput \x7b initiator_seed: {input.initiatorSeed.toNat}, " ++
    s!"responder_seed: {input.responderSeed.toNat}, ephemeral_seed: {input.ephemeralSeed.toNat}, " ++
    s!"act_one: {showBytes input.actOne.bytes}, act_two: {showBytes input.actTwo.bytes}, " ++
    s!"act_three: {showBytes input.actThree.bytes}, tamper: {tamper} \x7d"

end ExchangeInput

/-- Demands a condition, which is named if it does not hold. -/
def demand (holds : Bool) (condition : String) : Except Fault Unit :=
  if holds then .ok () else .error (.assertion condition)

/-- The value of a step that cannot fail. -/
def certain (step : Except Error α) : Except Fault α :=
  step.mapError fun error => .assertion error.describe

/-- Either party refuses the acts that it is given. -/
def arbitraryActs (input : ExchangeInput) : Except Fault Unit := do
  let responderKey := PrivateKey.ofSeed input.responderSeed
  let ephemeral := PrivateKey.ofSeed input.ephemeralSeed
  if let .ok responder := (Responder.start responderKey).receiveActOne input.actOne then
    if let .ok (_, responder) := responder.actTwo ephemeral then
      demand (responder.receiveActThree input.actThree matches .error _)
        "responder.recv_act_three(&input.act_three).is_err()"
  let initiator := Initiator.start (PrivateKey.ofSeed input.initiatorSeed) responderKey.publicKey
  if let .ok (_, initiator) := initiator.actOne ephemeral then
    demand (initiator.actThree input.actTwo matches .error _)
      "initiator.act_three(&input.act_two).is_err()"

def Tamper.flip (t : Option Tamper) (which : UInt8) (act : Octets n) : Octets n :=
  match t with
  | some t =>
    if t.act % 3 = which then
      ⟨act.bytes.modify (t.index.toNat % n) (· ^^^ t.mask), by simp⟩
    else act
  | none => act

/-- A handshake in which one act may be changed fails at that act, and otherwise succeeds; what one
side then seals the other opens. -/
def tamperedExchange (input : ExchangeInput) : Except Fault Unit := do
  let initiatorKey := PrivateKey.ofSeed input.initiatorSeed
  let responderKey := PrivateKey.ofSeed input.responderSeed
  if initiatorKey.publicKey = responderKey.publicKey then return
  let tamper := input.tamper.filter fun t => t.mask ≠ 0
  let tampered (which : UInt8) : Bool := tamper.any fun t => t.act % 3 = which
  let (actOne, initiator) ← certain <|
    (Initiator.start initiatorKey responderKey.publicKey).actOne (PrivateKey.ofSeed input.ephemeralSeed)
  let .ok responder := (Responder.start responderKey).receiveActOne (Tamper.flip tamper 0 actOne)
    | demand (tampered 0) "tampered(0)"
  demand (!tampered 0) "!tampered(0)"
  let (actTwo, responder) ← certain <|
    responder.actTwo (PrivateKey.ofSeed (input.ephemeralSeed + 1))
  let .ok (actThree, initiatorSession) := initiator.actThree (Tamper.flip tamper 1 actTwo)
    | demand (tampered 1) "tampered(1)"
  demand (!tampered 1) "!tampered(1)"
  let .ok responderSession := responder.receiveActThree (Tamper.flip tamper 2 actThree)
    | demand (tampered 2) "tampered(2)"
  demand (!tampered 2) "!tampered(2)"
  demand (responderSession.remoteStatic = initiatorKey.publicKey) "remote_static"
  let sealed ← certain (initiatorSession.outgoing.encrypt input.actThree.bytes).1
  let opened ← certain (responderSession.incoming.decrypt sealed).1
  demand (opened = input.actThree.bytes) "opened"

/-- Probes the handshake with the input that some bytes stand for, unless there are too few. -/
def probeExchange (bytes : Bytes) : Except Fault (Option ExchangeInput) := do
  if bytes.length < ExchangeInput.minimum then return none
  let input := (ExchangeInput.decode.run bytes).1
  arbitraryActs input
  tamperedExchange input
  return some input

end NoiseLink.Probe
