import NoiseLink.Scenario.State

/-! The steps that drive a handshake act by act. An act that a party refuses ends the party. -/
namespace NoiseLink.Scenario

open Attempt Play Script

/-- Goes on with the result of an act; a failed act consumes the party. -/
def actOf (who : String) (step : Except Error α) : Script α := do
  match step with
  | .ok value => return value
  | .error cause =>
    dropObject who
    throw (.error cause)

def startInitiator (staticKey : KeyGiven) (remote : PeerGiven) (name : String) : Script Answer := do
  let key ← check staticKey.key
  let peer ← check remote.key
  store name (.initiator (Initiator.start key peer))
  return .done

def startResponder (staticKey : KeyGiven) (name : String) : Script Answer := do
  let key ← check staticKey.key
  store name (.responder (Responder.start key))
  return .done

def actOne (ephemeral : KeyGiven) (who : String) (saveAs : Option String) : Script Answer := do
  let key ← check ephemeral.key
  let .initiator party ← object who | absent
  let (act, party) ← actOf who (party.actOne key)
  put who (.awaitingActTwo party)
  save saveAs act.bytes
  return .act (Excerpt.ofBytes act.bytes)

def receiveActOne (data : Data) (who : String) : Script Answer := do
  let actOne ← act _ data
  let .responder party ← object who | absent
  let party ← actOf who (party.receiveActOne actOne)
  put who (.receivedActOne party)
  return .done

def actTwo (ephemeral : KeyGiven) (who : String) (saveAs : Option String) : Script Answer := do
  let key ← check ephemeral.key
  let .receivedActOne party ← object who | absent
  let (act, party) ← actOf who (party.actTwo key)
  put who (.awaitingActThree party)
  save saveAs act.bytes
  return .act (Excerpt.ofBytes act.bytes)

def actThree (data : Data) (who : String) (saveAs : Option String) : Script Answer := do
  let actTwo ← act _ data
  let .awaitingActTwo party ← object who | absent
  let (act, session) ← actOf who (party.actThree actTwo)
  put who (.session session)
  save saveAs act.bytes
  return .actThree (Excerpt.ofBytes act.bytes) session.describe

def receiveActThree (data : Data) (who : String) : Script Answer := do
  let actThree ← act _ data
  let .awaitingActThree party ← object who | absent
  let session ← actOf who (party.receiveActThree actThree)
  put who (.session session)
  return .session session.describe

end NoiseLink.Scenario
