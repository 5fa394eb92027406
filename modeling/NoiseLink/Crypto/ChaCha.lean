import NoiseLink.Bytes

/-! The ChaCha stream functions. A state is four rows of four words, so that the four quarter
rounds of a half round are one step on whole rows; turning the rows brings the diagonals under
each other. A block is the stirred state added to the state it started from. -/
namespace NoiseLink.ChaCha

structure Row where
  (a b c d : UInt32)

namespace Row

@[inline] def add (x y : Row) : Row := ⟨x.a + y.a, x.b + y.b, x.c + y.c, x.d + y.d⟩

@[inline] def rotateWord (word amount : UInt32) : UInt32 :=
  (word <<< amount) ||| (word >>> (32 - amount))

/-- Adds bit by bit, then turns every word to the left. -/
@[inline] def xorRotate (x y : Row) (amount : UInt32) : Row :=
  ⟨rotateWord (x.a ^^^ y.a) amount, rotateWord (x.b ^^^ y.b) amount,
   rotateWord (x.c ^^^ y.c) amount, rotateWord (x.d ^^^ y.d) amount⟩

@[inline] def turn1 (x : Row) : Row := ⟨x.b, x.c, x.d, x.a⟩
@[inline] def turn2 (x : Row) : Row := ⟨x.c, x.d, x.a, x.b⟩
@[inline] def turn3 (x : Row) : Row := ⟨x.d, x.a, x.b, x.c⟩

def words (x : Row) : List UInt32 := [x.a, x.b, x.c, x.d]

/-- Reads a row of little-endian words; bytes that are missing count as zero. -/
def ofBytes (bytes : Bytes) : Row :=
  let word (offset : Nat) : UInt32 :=
    UInt32.ofNat (Bytes.ofLittleEndian ((bytes.drop offset).take 4))
  ⟨word 0, word 4, word 8, word 12⟩

end Row

structure State where
  (constants low high counter : Row)

namespace State

/-- The four quarter rounds of one half round. -/
@[inline] def quarterRounds (s : State) : State :=
  let a := s.constants.add s.low
  let d := s.counter.xorRotate a 16
  let c := s.high.add d
  let b := s.low.xorRotate c 12
  let a := a.add b
  let d := d.xorRotate a 8
  let c := c.add d
  ⟨a, b.xorRotate c 7, c, d⟩

@[inline] def doubleRound (s : State) : State :=
  let s := s.quarterRounds
  let s := quarterRounds ⟨s.constants, s.low.turn1, s.high.turn2, s.counter.turn3⟩
  ⟨s.constants, s.low.turn3, s.high.turn2, s.counter.turn1⟩

def stir : Nat → State → State
  | 0, s => s
  | rounds + 1, s => stir rounds s.doubleRound

def add (s t : State) : State :=
  ⟨s.constants.add t.constants, s.low.add t.low, s.high.add t.high, s.counter.add t.counter⟩

def words (s : State) : List UInt32 :=
  s.constants.words ++ s.low.words ++ s.high.words ++ s.counter.words

def block (doubleRounds : Nat) (s : State) : State := (stir doubleRounds s).add s

end State

/-- The state of a key; `last` is the row that holds counter and nonce. -/
def initial (key : Octets 32) (last : Row) : State :=
  ⟨⟨0x61707865, 0x3320646e, 0x79622d32, 0x6b206574⟩,
   Row.ofBytes (key.bytes.take 16), Row.ofBytes (key.bytes.drop 16), last⟩

/-- Puts a word in front of some bytes, its lowest byte first. -/
@[inline] def wordBefore (word : UInt32) (rest : Bytes) : Bytes :=
  word.toUInt8 :: (word >>> 8).toUInt8 :: (word >>> 16).toUInt8 :: (word >>> 24).toUInt8 :: rest

def wordBytes (word : UInt32) : Bytes := wordBefore word []

def Row.before (x : Row) (rest : Bytes) : Bytes :=
  wordBefore x.a (wordBefore x.b (wordBefore x.c (wordBefore x.d rest)))

def State.before (s : State) (rest : Bytes) : Bytes :=
  s.constants.before (s.low.before (s.high.before (s.counter.before rest)))

/-- The state of ChaCha20 with a nonce of 12 bytes, at block zero. -/
def start20 (key : Octets 32) (nonce : Octets 12) : State :=
  initial key (Row.ofBytes (Bytes.littleEndian 4 0 ++ nonce.bytes))

def State.atBlock (s : State) (counter : Nat) : State :=
  { s with counter := { s.counter with a := UInt32.ofNat counter } }

def block20 (key : Octets 32) (nonce : Octets 12) (counter : Nat) : Bytes :=
  (((start20 key nonce).atBlock counter).block 10).before []

/-- The words of a block of ChaCha12 with a 64-bit counter and stream number zero. -/
def words12 (key : Octets 32) (counter : Nat) : List UInt32 :=
  ((initial key (Row.ofBytes (Bytes.littleEndian 8 counter))).block 6).words

def blocks (s : State) (counter count : Nat) : Bytes :=
  (List.range count).foldr (fun i rest => ((s.atBlock (counter + i)).block 10).before rest) []

/-- The first `length` bytes of the key stream, from a given block on. -/
def keyStream (key : Octets 32) (nonce : Octets 12) (counter length : Nat) : Bytes :=
  (blocks (start20 key nonce) counter ((length + 63) / 64)).take length

@[simp] theorem length_before (s : State) (rest : Bytes) :
    (s.before rest).length = rest.length + 64 := rfl

@[simp] theorem length_block20 (key : Octets 32) (nonce : Octets 12) (counter : Nat) :
    (block20 key nonce counter).length = 64 := rfl

theorem length_blocks (s : State) (counter count : Nat) :
    (blocks s counter count).length = 64 * count := by
  have sum (indices : List Nat) : (indices.foldr
      (fun i rest => ((s.atBlock (counter + i)).block 10).before rest) []).length = 64 * indices.length := by
    induction indices with
    | nil => rfl
    | cons i indices ih => simp [ih]; omega
  simpa [blocks] using sum (List.range count)

@[simp] theorem length_keyStream (key : Octets 32) (nonce : Octets 12) (counter length : Nat) :
    (keyStream key nonce counter length).length = length := by
  simp only [keyStream, List.length_take, length_blocks]
  omega

end NoiseLink.ChaCha
