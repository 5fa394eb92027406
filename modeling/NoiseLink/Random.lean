import NoiseLink.Crypto.ChaCha

/-! Sources of randomness. A keyed generator hands out the words of a ChaCha12 key stream in
order; a scripted one hands out given bytes and then has no more. -/
namespace NoiseLink

inductive Generator where
  /-- The key of the stream and the number of words drawn from it. -/
  | keyed (key : Octets 32) (drawn : Nat)
  | scripted (rest : Bytes)

namespace Generator

def ofKey (key : Octets 32) : Generator := keyed key 0

/-- One step of the 64-bit congruential generator that spreads a short seed over a key. -/
def seedStep (state : UInt64) : UInt64 := state * 6364136223846793005 + 11634580027462260723

/-- The word that a state of the seed generator stands for. -/
def seedWord (state : UInt64) : UInt32 :=
  let mixed := (((state >>> 18) ^^^ state) >>> 27).toUInt32
  let turn := (state >>> 59).toUInt32
  (mixed >>> turn) ||| (mixed <<< ((32 - turn) % 32))

def seedWords : Nat → UInt64 → List UInt32
  | 0, _ => []
  | count + 1, state => seedWord (seedStep state) :: seedWords count (seedStep state)

@[simp] theorem length_seedWords (count : Nat) (state : UInt64) :
    (seedWords count state).length = count := by
  induction count generalizing state with
  | zero => rfl
  | succ count ih => simp [seedWords, ih]

def seedKey (seed : UInt64) : Octets 32 :=
  ⟨(seedWords 8 seed).flatMap ChaCha.wordBytes, by
    simp [List.length_flatMap, ChaCha.wordBytes, ChaCha.wordBefore, List.map_const']⟩

def ofSeed (seed : UInt64) : Generator := ofKey (seedKey seed)

/-- The words of a key stream from a given one on. -/
def streamWords (key : Octets 32) (start count : Nat) : List UInt32 :=
  let blocks := (List.range ((start % 16 + count + 15) / 16)).flatMap fun i =>
    ChaCha.words12 key (start / 16 + i)
  (blocks.drop (start % 16)).take count

/-- Draws bytes: whole words from a key stream, and never more than a script still holds. -/
def fill? (count : Nat) : Generator → Option (Bytes × Generator)
  | keyed key drawn =>
    let words := (count + 3) / 4
    some (((streamWords key drawn words).flatMap ChaCha.wordBytes).take count,
      keyed key (drawn + words))
  | scripted rest =>
    if rest.length < count then none else some (rest.take count, scripted (rest.drop count))

/-- Draws bytes one word each, keeping the low byte of every word. -/
def fillFromWords? : Nat → Generator → Option (Bytes × Generator)
  | 0, generator => some ([], generator)
  | count + 1, generator => do
    let (word, generator) ← generator.fill? 4
    let (rest, generator) ← generator.fillFromWords? count
    return (word.headD 0 :: rest, generator)

/-- Draws the key of a further generator, one word a byte. -/
def key? (generator : Generator) : Option (Octets 32 × Generator) := do
  let (bytes, generator) ← generator.fillFromWords? 32
  return (← Octets.ofBytes? 32 bytes, generator)

end Generator
end NoiseLink
