import NoiseLink.Receiver

/-! The receiving half as it lies in memory. What arrives of a header goes into one buffer and what arrives
of a payload into another; both are used again for every frame and never cleared, and one count says how far
the buffer in use is filled. Every call also tells what it asked of its stream and gave to its cipher. A
call that reaches outside a buffer has no result. -/
namespace NoiseLink

namespace Bytes

/-- The part of a buffer between two positions, unless it is out of range. -/
def slice? (buffer : Bytes) (start stop : Nat) : Option Bytes :=
  if start ≤ stop ∧ stop ≤ buffer.length then some ((buffer.take stop).drop start) else none

/-- Lays a piece into a buffer from some position on. The rest of the buffer stays as it is. -/
def lay (buffer : Bytes) (start : Nat) (piece : Bytes) : Bytes :=
  buffer.take start ++ piece ++ buffer.drop (start + piece.length)

/-- Cuts a buffer to a size, or makes up the size with zeros. -/
def resize (buffer : Bytes) (size : Nat) : Bytes :=
  buffer.take size ++ List.replicate (size - buffer.length) 0

theorem slice?_eq_some_iff {buffer part : Bytes} {start stop : Nat} :
    buffer.slice? start stop = some part ↔
      (start ≤ stop ∧ stop ≤ buffer.length) ∧ part = (buffer.take stop).drop start := by
  simp [slice?, eq_comm]

theorem length_of_slice? {buffer part : Bytes} {start stop : Nat}
    (there : buffer.slice? start stop = some part) : part.length = stop - start := by
  obtain ⟨⟨-, inside⟩, rfl⟩ := slice?_eq_some_iff.1 there
  simp only [List.length_drop, List.length_take]
  omega

/-- The room that is left behind what is filled makes up the size. -/
theorem room_of_slice? {buffer room : Bytes} {filled size : Nat}
    (there : buffer.slice? filled size = some room) (whole : buffer.length = size) (short : filled < size) :
    (buffer.take filled).length + room.length = size ∧ 0 < room.length := by
  have free := length_of_slice? there
  rw [List.length_take]
  omega

theorem length_lay {buffer piece : Bytes} {start : Nat} (fits : start + piece.length ≤ buffer.length) :
    (buffer.lay start piece).length = buffer.length := by
  simp only [lay, List.length_append, List.length_take, List.length_drop]
  omega

/-- A piece continues what is in front of it. -/
theorem take_lay {buffer piece : Bytes} {start : Nat} (inside : start ≤ buffer.length) :
    (buffer.lay start piece).take (start + piece.length) = buffer.take start ++ piece := by
  have front : (buffer.take start ++ piece).length = start + piece.length := by
    simp only [List.length_append, List.length_take]
    omega
  rw [lay, List.take_append_of_le_length (Nat.le_of_eq front.symm), ← front, List.take_length]

@[simp] theorem length_resize (buffer : Bytes) (size : Nat) : (buffer.resize size).length = size := by
  simp only [resize, List.length_append, List.length_take, List.length_replicate]
  omega

end Bytes

structure BufferedReceiver where
  cipher : CipherState
  header : Bytes
  body : Bytes
  /-- How far the buffer in use is filled. -/
  filled : Nat
  /-- The length of the payload that comes next, once its header is opened. -/
  pending : Option Nat
  /-- The part of the last frame that was not handed out. -/
  residual : Bytes
  terminated : Bool
deriving DecidableEq

namespace BufferedReceiver

/-- What passes between a receiver and its stream, or between it and its cipher. -/
inductive Contact where
  | asked (size : Nat) (answer : Poll (Except NetworkError Bytes))
  | opened (unit : Bytes) (answer : Except Error Bytes)

def start (cipher : CipherState) : BufferedReceiver :=
  ⟨cipher, List.replicate headerLength 0, [], 0, none, [], false⟩

/-- How an attempt to fill a buffer ends. -/
inductive Filling where
  | full
  | waiting
  | ended
  | failed (cause : NetworkError)

structure Fill (ω : Type) where
  outcome : Filling
  buffer : Bytes
  filled : Nat
  world : ω
  log : List Contact

/-- Receives into a buffer until `size` bytes of it are filled. The stream gets the room that is left and
writes to the front of it. -/
def fill (source : Source ω) (size : Nat) (buffer : Bytes) (filled : Nat) (w : ω) : Option (Fill ω) :=
  if filled < size then
    match buffer.slice? filled size with
    | none => none
    | some room =>
      match source.receive room.length w with
      | (.pending, w) => some ⟨.waiting, buffer, filled, w, [.asked room.length .pending]⟩
      | (.ready (.error cause), w) =>
        some ⟨.failed cause, buffer, filled, w, [.asked room.length (.ready (.error cause))]⟩
      | (.ready (.ok []), w) => some ⟨.ended, buffer, filled, w, [.asked room.length (.ready (.ok []))]⟩
      | (.ready (.ok (byte :: bytes)), w) =>
        let piece := byte :: bytes
        (fill source size (buffer.lay filled (piece.take room.length)) (filled + piece.length) w).map
          fun f => { f with log := .asked room.length (.ready (.ok piece)) :: f.log }
  else some ⟨.full, buffer, filled, w, []⟩
termination_by size - filled
decreasing_by simp only [List.length_cons]; omega

/-- What a call comes to, and what it did on the way. -/
structure Outcome (ω α : Type) where
  answer : Poll (Except Error α)
  receiver : BufferedReceiver
  world : ω
  log : List Contact

/-- The same with something done before it. -/
def Outcome.behind (log : List Contact) (o : Outcome ω α) : Outcome ω α := { o with log := log ++ o.log }

/-- Receives and opens the payload of a frame whose length is known. -/
def readBody (source : Source ω) (length : Nat) (b : BufferedReceiver) (w : ω) :
    Option (Outcome ω (Option Bytes)) :=
  match fill source (length + Aead.tagLength) b.body b.filled w with
  | none => none
  | some f =>
    let b := { b with body := f.buffer, filled := f.filled }
    match f.outcome with
    | .waiting => some ⟨.pending, b, f.world, f.log⟩
    | .failed cause => some ⟨.ready (.error (.network cause)), b, f.world, f.log⟩
    | .ended => some ⟨.ready (.error .malformedFrame), b, f.world, f.log⟩
    | .full =>
      match b.body.slice? 0 (length + Aead.tagLength) with
      | none => none
      | some unit =>
        let (answer, cipher) := b.cipher.decrypt unit
        some ⟨.ready (answer.map some), { b with cipher, filled := 0, pending := none }, f.world,
          f.log ++ [.opened unit answer]⟩

/-- Receives and opens one frame, or finds that the stream has ended between two frames. -/
def readFrame (source : Source ω) (b : BufferedReceiver) (w : ω) : Option (Outcome ω (Option Bytes)) :=
  match b.pending with
  | some length => b.readBody source length w
  | none =>
    match fill source headerLength b.header b.filled w with
    | none => none
    | some f =>
      let b := { b with header := f.buffer, filled := f.filled }
      match f.outcome with
      | .waiting => some ⟨.pending, b, f.world, f.log⟩
      | .failed cause => some ⟨.ready (.error (.network cause)), b, f.world, f.log⟩
      | .ended =>
        let answer := if b.filled = 0 then .ok none else .error .malformedFrame
        some ⟨.ready answer, b, f.world, f.log⟩
      | .full =>
        let (answer, cipher) := b.cipher.decrypt b.header
        let b := { b with cipher, filled := 0 }
        let log := f.log ++ [.opened b.header answer]
        match answer with
        | .ok [high, low] =>
          let length := Bytes.ofBigEndian [high, low]
          let b := { b with body := b.body.resize (length + Aead.tagLength), pending := some length }
          (b.readBody source length f.world).map (.behind log)
        | .ok _ => some ⟨.ready (.error .malformedFrame), b, f.world, log⟩
        | .error error => some ⟨.ready (.error error), b, f.world, log⟩

/-- The next frame of a half that has not failed; a failure terminates it. -/
def nextFrame (source : Source ω) (b : BufferedReceiver) (w : ω) : Option (Outcome ω (Option Bytes)) :=
  if b.terminated then some ⟨.ready (.error .terminated), b, w, []⟩
  else
    (b.readFrame source w).map fun o =>
      match o.answer with
      | .ready (.error _) => { o with receiver := { o.receiver with terminated := true } }
      | _ => o

/-- Receives one message: what is left of the last frame, or the next one. -/
def receive (source : Source ω) (b : BufferedReceiver) (w : ω) : Option (Outcome ω Bytes) :=
  if b.residual ≠ [] then some ⟨.ready (.ok b.residual), { b with residual := [] }, w, []⟩
  else
    (b.nextFrame source w).map fun o =>
      match o.answer with
      | .ready (.ok (some payload)) => ⟨.ready (.ok payload), o.receiver, o.world, o.log⟩
      | .ready (.ok none) => ⟨.ready (.error .streamClosed), o.receiver, o.world, o.log⟩
      | .ready (.error error) => ⟨.ready (.error error), o.receiver, o.world, o.log⟩
      | .pending => ⟨.pending, o.receiver, o.world, o.log⟩

/-- Whether part of a frame has arrived. -/
def underway (b : BufferedReceiver) : Nat := if b.pending = none ∧ b.filled = 0 then 0 else 1

theorem supply_fill {source : Source ω} {size filled : Nat} {buffer : Bytes} {w : ω} {f : Fill ω}
    (made : fill source size buffer filled w = some f) :
    source.supply f.world ≤ source.supply w ∧
      (filled < size → f.outcome = .full → source.supply f.world < source.supply w) := by
  fun_induction fill source size buffer filled w generalizing f with
  | case1 => cases made
  | case2 buffer filled w short room there after answer =>
    cases made
    have taken := source.supply_le room.length w
    rw [answer] at taken
    exact ⟨taken, by simp⟩
  | case3 buffer filled w short room there cause after answer =>
    cases made
    have taken := source.supply_le room.length w
    rw [answer] at taken
    exact ⟨taken, by simp⟩
  | case4 buffer filled w short room there after answer =>
    cases made
    have taken := source.supply_le room.length w
    rw [answer] at taken
    exact ⟨taken, by simp⟩
  | case5 buffer filled w short room there byte bytes after answer =>
    rename_i ih
    obtain ⟨g, inner, rfl⟩ := Option.map_eq_some_iff.1 made
    have later := (ih inner).1
    have taken := source.supply_lt _ _ _ _ _ answer
    have less : source.supply g.world < source.supply w := Nat.lt_of_le_of_lt later taken
    exact ⟨Nat.le_of_lt less, fun _ _ => less⟩
  | case6 buffer filled w full =>
    cases made
    exact ⟨Nat.le_refl _, fun short => absurd short full⟩

theorem readBody_some {source : Source ω} {length : Nat} {b next : BufferedReceiver} {w after : ω}
    {payload : Bytes} {log : List Contact}
    (made : b.readBody source length w = some ⟨.ready (.ok (some payload)), next, after, log⟩) :
    next.underway = 0 ∧ source.supply after ≤ source.supply w := by
  rw [readBody] at made
  split at made
  · cases made
  · rename_i f filling
    have taken := (supply_fill filling).1
    simp only at made
    split at made
    · simp at made
    · simp at made
    · simp at made
    · split at made
      · cases made
      · simp only [Option.some.injEq, Outcome.mk.injEq] at made
        obtain ⟨-, rfl, rfl, -⟩ := made
        exact ⟨rfl, taken⟩

theorem readFrame_some {source : Source ω} {b next : BufferedReceiver} {w after : ω}
    {payload : Bytes} {log : List Contact}
    (made : b.readFrame source w = some ⟨.ready (.ok (some payload)), next, after, log⟩) :
    2 * source.supply after + next.underway < 2 * source.supply w + b.underway := by
  rw [readFrame] at made
  split at made
  · rename_i known
    obtain ⟨idle, taken⟩ := readBody_some made
    have busy : b.underway = 1 := by simp [underway, known]
    omega
  · rename_i unknown
    split at made
    · cases made
    · rename_i f filling
      obtain ⟨taken, less⟩ := supply_fill filling
      simp only at made
      split at made
      · simp at made
      · simp at made
      · split at made <;> simp at made
      · rename_i full
        split at made
        · obtain ⟨⟨answer, last, rest, later⟩, body, same⟩ := Option.map_eq_some_iff.1 made
          simp only [Outcome.behind, Outcome.mk.injEq] at same
          obtain ⟨rfl, rfl, rfl, -⟩ := same
          obtain ⟨idle, rest⟩ := readBody_some body
          by_cases empty : b.filled = 0
          · have more := less (empty ▸ by decide) full
            omega
          · have busy : b.underway = 1 := by simp [underway, empty]
            omega
        · simp at made
        · simp at made

/-- A frame leaves the receiver between two frames, and took bytes from the stream unless part of
it was there already. -/
theorem nextFrame_some {source : Source ω} {b next : BufferedReceiver} {w after : ω}
    {payload : Bytes} {log : List Contact}
    (made : b.nextFrame source w = some ⟨.ready (.ok (some payload)), next, after, log⟩) :
    2 * source.supply after + next.underway < 2 * source.supply w + b.underway := by
  rw [nextFrame] at made
  split at made
  · simp at made
  · obtain ⟨o, read, same⟩ := Option.map_eq_some_iff.1 made
    split at same
    · rename_i failed
      rw [Outcome.mk.injEq, failed] at same
      simp at same
    · exact readFrame_some (same ▸ read)

/-- Reads up to `size` bytes of the plaintext, from as many frames as it takes to find one that is
not empty. No bytes mean that the stream has ended. -/
def read (source : Source ω) (size : Nat) (b : BufferedReceiver) (w : ω) : Option (Outcome ω Bytes) :=
  if size = 0 then some ⟨.ready (.ok []), b, w, []⟩
  else if b.residual ≠ [] then
    some ⟨.ready (.ok (b.residual.take size)), { b with residual := b.residual.drop size }, w, []⟩
  else
    match _made : b.nextFrame source w with
    | none => none
    | some ⟨.ready (.ok (some payload)), next, after, log⟩ =>
      (read source size { next with residual := payload } after).map (.behind log)
    | some ⟨.ready (.ok none), next, after, log⟩ => some ⟨.ready (.ok []), next, after, log⟩
    | some ⟨.ready (.error error), next, after, log⟩ => some ⟨.ready (.error error), next, after, log⟩
    | some ⟨.pending, next, after, log⟩ => some ⟨.pending, next, after, log⟩
termination_by 2 * source.supply w + b.underway
decreasing_by
  have less := nextFrame_some _made
  exact less

/-- The unit that is being received, as far as it has arrived. -/
def held (b : BufferedReceiver) : Bytes :=
  match b.pending with
  | none => b.header.take b.filled
  | some _ => b.body.take b.filled

def stage (b : BufferedReceiver) : Stage :=
  match b.pending with
  | none => .header b.held.toArray
  | some length => .body length b.held.toArray

/-- The same receiver without its buffers. -/
def receiver (b : BufferedReceiver) : Receiver := ⟨b.cipher, b.stage, b.residual, b.terminated⟩

@[simp] theorem receiver_residual (b : BufferedReceiver) : b.receiver.residual = b.residual := rfl

@[simp] theorem receiver_terminated (b : BufferedReceiver) : b.receiver.terminated = b.terminated := rfl

/-- Between two units. -/
theorem stage_idle {b : BufferedReceiver} (unknown : b.pending = none) (empty : b.filled = 0) :
    b.stage = .idle := by
  rw [stage, held, unknown, empty]
  rfl

end BufferedReceiver
end NoiseLink
