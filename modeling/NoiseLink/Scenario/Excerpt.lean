import NoiseLink.Crypto.Sha256

/-! How long answers are shortened: byte strings to their length, hash and ends, lists of sizes to
runs of equal ones. -/
namespace NoiseLink.Scenario

inductive Excerpt where
  | whole (bytes : Bytes)
  | parts (length : Nat) (hash : Octets 32) (head tail : Bytes)

namespace Excerpt

/-- The most bytes that are shown whole. -/
def limit : Nat := 128

def ofBytes (bytes : Bytes) : Excerpt :=
  if bytes.length ≤ limit then whole bytes
  else parts bytes.length (Sha256.digest bytes) (bytes.take 32) (bytes.drop (bytes.length - 16))

end Excerpt

/-- Equal neighbours as one value and their number. -/
structure Run where
  value : Nat
  count : Nat
deriving DecidableEq

def Run.cons (value : Nat) : List Run → List Run
  | [] => [⟨value, 1⟩]
  | run :: runs => if run.value = value then ⟨value, run.count + 1⟩ :: runs else ⟨value, 1⟩ :: run :: runs

def runs (values : List Nat) : List Run := values.foldr Run.cons []

/-- The pieces that a reader took: all their bytes, and their sizes. -/
structure Pieces where
  bytes : Excerpt
  sizes : List Run

def Pieces.ofArray (pieces : Array Bytes) : Pieces :=
  ⟨Excerpt.ofBytes pieces.toList.flatten, runs (pieces.toList.map List.length)⟩

end NoiseLink.Scenario
