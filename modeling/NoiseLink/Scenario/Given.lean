import NoiseLink.Key

/-! Keys and byte strings as the steps of a scenario give them. A key may turn out to be invalid and
a byte string may not be there, so giving is apart from having. -/
namespace NoiseLink.Scenario

inductive KeyGiven where
  | seed (seed : UInt64)
  | bytes (bytes : Bytes)

def KeyGiven.key : KeyGiven → Except Error PrivateKey
  | .seed value => .ok (PrivateKey.ofSeed value)
  | .bytes value => PrivateKey.ofBytes value

inductive PeerGiven where
  | holder (key : KeyGiven)
  | bytes (bytes : Bytes)

def PeerGiven.key : PeerGiven → Except Error PublicKey
  | .holder key => key.key.map PrivateKey.publicKey
  | .bytes value => PublicKey.ofBytes value

inductive Data where
  | literal (bytes : Bytes)
  | saved (name : String)
  | fill (byte : UInt8) (count : Nat)
  /-- Counts up from zero, starting again at the modulus. -/
  | counting (modulus count : Nat)
  | append (first second : Data)
  | slice (start stop : Option Nat) (data : Data)
  | flip (masks : List (Nat × UInt8)) (data : Data)

namespace Data

def bytes? (held : String → Option Bytes) : Data → Option Bytes
  | literal bytes => some bytes
  | saved name => held name
  | fill byte count => some (List.replicate count byte)
  | counting modulus count => some ((List.range count).map fun i => UInt8.ofNat (i % modulus))
  | append first second => return (← first.bytes? held) ++ (← second.bytes? held)
  | slice start stop data => do
    let bytes ← data.bytes? held
    return (bytes.take (stop.getD bytes.length)).drop (start.getD 0)
  | flip masks data => do
    let bytes ← data.bytes? held
    return masks.foldl (fun bytes (i, mask) => bytes.modify i (· ^^^ mask)) bytes

end Data
end NoiseLink.Scenario
