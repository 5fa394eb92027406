import NoiseLink.Scenario.State

/-! The steps that use ciphers by themselves, in a session or alone. -/
namespace NoiseLink.Scenario

open Attempt Play Script

/-- Where a cipher is kept: by itself, or as one direction of a session. -/
inductive CipherPlace where
  | alone
  | outgoing (session : String)
  | incoming (session : String)

/-- Finds a cipher by its own name, or by that of a session and a direction. -/
def cipher (name : String) : Script (CipherPlace × CipherState) := do
  let objects := (← get).objects
  let session? (suffix : String) : Option (String × Session) := do
    let base ← name.dropSuffix? suffix
    let .session session ← objects.get? base.copy | none
    return (base.copy, session)
  if let some (.cipher cipher) := objects.get? name then
    return (.alone, cipher)
  else if let some (base, session) := session? ".send" then
    return (.outgoing base, session.outgoing)
  else if let some (base, session) := session? ".recv" then
    return (.incoming base, session.incoming)
  else absent

def putCipher (name : String) (place : CipherPlace) (cipher : CipherState) : Script Unit := do
  match place with
  | .alone => put name (.cipher cipher)
  | .outgoing base =>
    if let .session session ← object base then
      put base (.session { session with outgoing := cipher })
  | .incoming base =>
    if let .session session ← object base then
      put base (.session { session with incoming := cipher })

def withCipher (name : String) (operation : CipherState → α × CipherState) : Script (α × CipherState) := do
  let (place, before) ← cipher name
  let (value, after) := operation before
  putCipher name place after
  reportRotations before after
  return (value, after)

def startCipher (key chainingKey : Data) (name : String) : Script Answer := do
  let key ← require (Octets.ofBytes? 32 (← bytes key))
  let chainingKey ← require (Octets.ofBytes? 32 (← bytes chainingKey))
  store name (.cipher (CipherState.start key chainingKey))
  return .done

/-- Repeats an operation on a cipher and gives its results, first to last. -/
def repeated (operation : CipherState → α × CipherState) :
    Nat → CipherState → Array α → Array α × CipherState
  | 0, c, results => (results, c)
  | count + 1, c, results =>
    let (result, c) := operation c
    repeated operation count c (results.push result)

def encrypt (data : Data) (count : Nat) (who : String) (saveAs : Option String) : Script Answer := do
  let text ← bytes data
  let (results, c) ← withCipher who fun c => repeated (·.encrypt text) count c #[]
  let sealed ← check (results.toList.mapM id)
  let last := sealed.getLastD []
  save saveAs last
  let all := if count > 1 then some (Excerpt.ofBytes sealed.flatten) else none
  return .encrypted (Excerpt.ofBytes last) c.nonce c.generation all

def decrypt (data : Data) (count : Nat) (who : String) (saveAs : Option String) : Script Answer := do
  let sealed ← bytes data
  let (results, c) ← withCipher who fun c => repeated (·.decrypt sealed) count c #[]
  let opened := results.toList.countP fun result => result matches .ok _
  let tally := if count > 1 then some (opened, results.size - opened) else none
  match results.back? with
  | some (.error cause) => return .decrypted (.error (.error cause)) c.nonce c.generation tally
  | last =>
    let text := match last with
      | some (.ok text) => text
      | _ => []
    save saveAs text
    return .decrypted (.ok (Excerpt.ofBytes text)) c.nonce c.generation tally

/-- The text and its number, in four bytes. -/
def numbered (text : Bytes) (i : Nat) : Bytes := text ++ Bytes.bigEndian 4 i

def transfer (data : Data) (count : Nat) (origin target : String) : Script Answer := do
  let text ← bytes data
  discard (cipher origin)
  discard (cipher target)
  for i in List.range count do
    let (sealed, _) ← withCipher origin (·.encrypt (numbered text i))
    let sealed ← check sealed
    let (opened, _) ← withCipher target (·.decrypt sealed)
    discard (check opened)
  return .done

def rotate (count : Nat) (who : String) : Script Answer := do
  let (_, c) ← withCipher who fun c => repeated (fun c => ((), c.rotate)) count c #[]
  if count = 0 then return .done
  return .rotated ⟨c.generation - 1, c.generation⟩

def inspect (who : String) : Script Answer := do
  if let some (.session session) ← object? who then
    return .sessionWith session.describe session.remoteStatic
  let (_, c) ← cipher who
  return .cipher c.nonce c.generation c.describe

end NoiseLink.Scenario
