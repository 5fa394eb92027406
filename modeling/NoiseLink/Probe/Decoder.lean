import NoiseLink.Bytes

/-! Values read from arbitrary bytes. Reading never fails: bytes beyond the end count as zero, and a
list goes on as long as the flag before each element is odd. -/
namespace NoiseLink.Probe

/-- Reads a value and leaves the rest of the bytes. -/
abbrev Decoder (α : Type) := StateM Bytes α

namespace Decoder

def octets (n : Nat) : Decoder (Octets n) := fun bytes =>
  (⟨bytes.take n ++ List.replicate (n - bytes.length) 0, by simp; omega⟩, bytes.drop n)

def byte : Decoder UInt8 := fun bytes => (bytes.headD 0, bytes.drop 1)

/-- A little-endian number of so many bytes. -/
def number (width : Nat) : Decoder Nat := return Bytes.ofLittleEndian (← octets width).bytes

def flag : Decoder Bool := return (← byte) % 2 = 1

/-- A flag, and a value if it is odd. -/
def optional (value : Decoder α) : Decoder (Option α) := do
  if ← flag then return some (← value) else return none

/-- A list of single bytes. -/
def byteList : Decoder Bytes
  | [] => ([], [])
  | mark :: rest =>
    if mark % 2 = 1 then
      match rest with
      | [] => ([0], [])
      | value :: rest => ((byteList rest).map (value :: ·) id)
    else ([], rest)

theorem length_byteList (bytes : Bytes) : (byteList bytes).2.length ≤ bytes.length := by
  fun_induction byteList bytes <;> simp_all
  omega

/-- A list of values, each of which may use up bytes but none can bring some. -/
def list (value : Decoder α) (shrinks : ∀ bytes, (value bytes).2.length ≤ bytes.length) :
    Decoder (List α)
  | [] => ([], [])
  | mark :: rest =>
    if mark % 2 = 1 then
      ((list value shrinks (value rest).2).map ((value rest).1 :: ·) id)
    else ([], rest)
termination_by bytes => bytes.length
decreasing_by have := shrinks rest; simp; omega

end Decoder

def showBytes (bytes : Bytes) : String :=
  "[" ++ ", ".intercalate (bytes.map fun byte => toString byte.toNat) ++ "]"

end NoiseLink.Probe
