import NoiseLink.Crypto.Sha256

/-! Key derivation: HMAC over SHA-256, and HKDF with an empty context and two keys of output. -/
namespace NoiseLink

/-- The keyed hash of a message. A key longer than a block is hashed first. -/
def hmac (key message : Bytes) : Octets 32 :=
  let short := if key.length ≤ 64 then key else (Sha256.digest key).bytes
  let block := short ++ List.replicate (64 - short.length) 0
  let inner := Sha256.digest (block.map (· ^^^ 0x36) ++ message)
  Sha256.digest (block.map (· ^^^ 0x5c) ++ inner.bytes)

/-- Extracts a key from a salt and input material, and expands it to two keys. -/
def hkdf (salt : Octets 32) (material : Bytes) : Octets 32 × Octets 32 :=
  let extracted := (hmac salt.bytes material).bytes
  let first := hmac extracted [1]
  (first, hmac extracted (first.bytes ++ [2]))

end NoiseLink
