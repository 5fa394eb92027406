import NoiseLink.Failure
import NoiseLink.Scenario.Given

/-! Questions about keys by themselves. -/
namespace NoiseLink.Scenario

/-- Draws keys one after another, and tells how many bytes a script gave for them. -/
def drawKeys (count : Nat) (generator : Generator) : Except Failure (List PrivateKey × Option Nat) := do
  let rec draw : Nat → Generator → Except Failure (List PrivateKey × Generator)
    | 0, g => return ([], g)
    | count + 1, g => do
      match PrivateKey.generate? g with
      | none => throw (.fault .exhausted)
      | some (key, g) =>
        let (keys, g) ← draw count g
        return (key :: keys, g)
  let (keys, rest) ← draw count generator
  match generator, rest with
  | .scripted before, .scripted after => return (keys, some (before.length - after.length))
  | _, _ => return (keys, none)

/-- A list of public keys in order, the number of different ones, and how each compares with the
next. -/
structure PeerComparison where
  sorted : List PublicKey
  distinct : Nat
  neighbours : List Ordering

def comparePeers (given : List PeerGiven) : Except Error PeerComparison := do
  let keys ← given.mapM PeerGiven.key
  return {
    sorted := keys.mergeSort fun a b => compare a b != .gt
    distinct := keys.eraseDups.length
    neighbours := List.zipWith compare keys (keys.drop 1) }

end NoiseLink.Scenario
