import NoiseLink.Key

/-! What the echo program leaves to chance, as values. -/
namespace NoiseLink.Echo

/-- What a run leaves to chance. -/
structure Chance where
  ephemeral : PrivateKey
  message : Nat → Bytes
  /-- What a server draws its keys from. -/
  generator : Generator

namespace Chance

def maxMessageSize : Nat := 100000

/-- A message of random bytes, from one to the largest number of them. The order of magnitude of
that number is drawn first, so short messages are as likely as long ones. -/
def drawMessage? (generator : Generator) : Option Bytes := do
  let (word, generator) ← generator.fill? 4
  let (magnitude, generator) ← generator.fill? 1
  let sizes := min maxMessageSize (1 <<< ((magnitude.headD 0).toNat % 17 + 1))
  let (bytes, _) ← generator.fill? (1 + Bytes.ofBigEndian word % sizes)
  return bytes

def ofSeed (seed : UInt64) : Chance where
  ephemeral := PrivateKey.ofSeed seed
  message i := (drawMessage? (Generator.ofSeed (seed + 1 + UInt64.ofNat i))).getD [0]
  generator := Generator.ofSeed seed

end Chance

end NoiseLink.Echo
