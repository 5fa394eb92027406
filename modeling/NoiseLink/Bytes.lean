/-!
Byte strings, byte strings of a fixed length, and the two byte orders. Everything that is
hashed, encrypted or put on the wire is a `Bytes`; what a standard gives a fixed length is an
`Octets n`. -/
namespace NoiseLink

abbrev Bytes := List UInt8

namespace Bytes

/-- Adds two byte strings bit by bit, as far as the shorter one reaches. -/
def xor (a b : Bytes) : Bytes := List.zipWith (fun x y => x ^^^ y) a b

/-- The `width` low bytes of a number, lowest first. -/
def littleEndian : Nat → Nat → Bytes
  | 0, _ => []
  | width + 1, value => UInt8.ofNat value :: littleEndian width (value / 256)

/-- The `width` low bytes of a number, highest first. -/
def bigEndian (width value : Nat) : Bytes := (littleEndian width value).reverse

def ofLittleEndian (bytes : Bytes) : Nat := bytes.foldr (fun byte value => byte.toNat + 256 * value) 0

def ofBigEndian (bytes : Bytes) : Nat := bytes.foldl (fun value byte => 256 * value + byte.toNat) 0

def ofText (text : String) : Bytes := text.toUTF8.data.toList

/-- Cuts a byte string into pieces of `size` bytes, the last of which may be shorter. -/
def chunks (size : Nat) : Bytes → List Bytes
  | [] => []
  | byte :: rest => (byte :: rest.take (size - 1)) :: chunks size (rest.drop (size - 1))
termination_by bytes => bytes.length
decreasing_by simp only [List.length_drop, List.length_cons]; omega

@[simp] theorem length_littleEndian (width value : Nat) :
    (littleEndian width value).length = width := by
  induction width generalizing value with
  | zero => rfl
  | succ width ih => simp [littleEndian, ih]

@[simp] theorem length_bigEndian (width value : Nat) : (bigEndian width value).length = width := by
  simp [bigEndian]

theorem flatten_chunks (size : Nat) (bytes : Bytes) : (chunks size bytes).flatten = bytes := by
  fun_induction chunks size bytes with
  | case1 => rfl
  | case2 byte rest ih => simp [ih]

/-- Adding the same key twice gives the text back. -/
theorem xor_xor (text key : Bytes) (long : text.length ≤ key.length) :
    xor (xor text key) key = text := by
  induction text generalizing key with
  | nil => simp [xor]
  | cons byte rest ih =>
    cases key with
    | nil => simp at long
    | cons k keys =>
      have tail := ih keys (by simpa using long)
      simp only [xor, List.zipWith_cons_cons] at tail ⊢
      rw [tail, UInt8.xor_assoc, UInt8.xor_self, UInt8.xor_zero]

@[simp] theorem length_xor (text key : Bytes) (long : text.length ≤ key.length) :
    (xor text key).length = text.length := by
  simp [xor, long]

end Bytes

/-- A byte string of exactly `n` bytes. -/
structure Octets (n : Nat) where
  bytes : Bytes
  length_bytes : bytes.length = n
deriving DecidableEq

namespace Octets

attribute [simp] length_bytes

@[ext] theorem ext {a b : Octets n} (same : a.bytes = b.bytes) : a = b := by
  cases a; cases b; simp_all

def zero (n : Nat) : Octets n := ⟨List.replicate n 0, by simp⟩

instance : Inhabited (Octets n) := ⟨zero n⟩

def ofBytes? (n : Nat) (bytes : Bytes) : Option (Octets n) :=
  if h : bytes.length = n then some ⟨bytes, h⟩ else none

def window (octets : Octets n) (offset size : Nat) (inside : offset + size ≤ n) : Octets size :=
  ⟨(octets.bytes.drop offset).take size, by simp; omega⟩

def append (a : Octets m) (b : Octets n) : Octets (m + n) := ⟨a.bytes ++ b.bytes, by simp⟩

instance : HAppend (Octets m) (Octets n) (Octets (m + n)) := ⟨append⟩

def littleEndian (width value : Nat) : Octets width := ⟨Bytes.littleEndian width value, by simp⟩

def bigEndian (width value : Nat) : Octets width := ⟨Bytes.bigEndian width value, by simp⟩

end Octets
end NoiseLink
