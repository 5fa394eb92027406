import NoiseLink.Sender

/-! The receiving half of a connection. What has arrived of a frame is kept in the state, so a call
that has to wait can be given up and a later one goes on from there. Any failure but the clean end
of the stream is final. -/
namespace NoiseLink

/-- The unit of a frame that is being received, and what has arrived of it. -/
inductive Stage where
  | header (got : Array UInt8)
  | body (length : Nat) (got : Array UInt8)
deriving DecidableEq

/-- Between two frames. -/
def Stage.idle : Stage := .header #[]

structure Receiver where
  cipher : CipherState
  stage : Stage
  /-- The part of the last frame that was not handed out. -/
  residual : Bytes
  terminated : Bool
deriving DecidableEq

namespace Receiver

def start (cipher : CipherState) : Receiver := ⟨cipher, .idle, [], false⟩

/-- Receives and opens the payload of a frame whose length is known. -/
def readBody (source : Source ω) (length : Nat) (got : Array UInt8) (r : Receiver) (w : ω) :
    Poll (Except Error (Option Bytes)) × Receiver × ω :=
  match source.gather (length + Aead.tagLength) got w with
  | (.waiting got, w) => (.pending, { r with stage := .body length got }, w)
  | (.failed cause got, w) =>
    (.ready (.error (.network cause)), { r with stage := .body length got }, w)
  | (.ended got, w) => (.ready (.error .malformedFrame), { r with stage := .body length got }, w)
  | (.full unit, w) =>
    match r.cipher.decrypt unit.bytes with
    | (.ok payload, cipher) => (.ready (.ok (some payload)), { r with cipher, stage := .idle }, w)
    | (.error error, cipher) => (.ready (.error error), { r with cipher, stage := .idle }, w)

/-- Receives and opens one frame, or finds that the stream has ended between two frames. -/
def readFrame (source : Source ω) (r : Receiver) (w : ω) :
    Poll (Except Error (Option Bytes)) × Receiver × ω :=
  match r.stage with
  | .body length got => r.readBody source length got w
  | .header got =>
    match source.gather headerLength got w with
    | (.waiting got, w) => (.pending, { r with stage := .header got }, w)
    | (.failed cause got, w) =>
      (.ready (.error (.network cause)), { r with stage := .header got }, w)
    | (.ended got, w) =>
      let r := { r with stage := .header got }
      if got.size = 0 then (.ready (.ok none), r, w) else (.ready (.error .malformedFrame), r, w)
    | (.full unit, w) =>
      match r.cipher.decrypt unit.bytes with
      | (.ok [high, low], cipher) =>
        { r with cipher }.readBody source (Bytes.ofBigEndian [high, low]) #[] w
      | (.ok _, cipher) => (.ready (.error .malformedFrame), { r with cipher, stage := .idle }, w)
      | (.error error, cipher) => (.ready (.error error), { r with cipher, stage := .idle }, w)

/-- The next frame of a half that has not failed; a failure terminates it. -/
def nextFrame (source : Source ω) (r : Receiver) (w : ω) :
    Poll (Except Error (Option Bytes)) × Receiver × ω :=
  if r.terminated then (.ready (.error .terminated), r, w)
  else
    match r.readFrame source w with
    | (.ready (.error error), r, w) => (.ready (.error error), { r with terminated := true }, w)
    | answer => answer

/-- Receives one message: what is left of the last frame, or the next one. -/
def receive (source : Source ω) (r : Receiver) (w : ω) : Poll (Except Error Bytes) × Receiver × ω :=
  if r.residual ≠ [] then (.ready (.ok r.residual), { r with residual := [] }, w)
  else
    match r.nextFrame source w with
    | (.ready (.ok (some payload)), r, w) => (.ready (.ok payload), r, w)
    | (.ready (.ok none), r, w) => (.ready (.error .streamClosed), r, w)
    | (.ready (.error error), r, w) => (.ready (.error error), r, w)
    | (.pending, r, w) => (.pending, r, w)

/-- Whether part of a frame has arrived. -/
def underway (r : Receiver) : Nat := if r.stage = .idle then 0 else 1

theorem readBody_some {source : Source ω} {length : Nat} {got : Array UInt8} {r next : Receiver}
    {w rest : ω} {payload : Bytes}
    (h : r.readBody source length got w = (.ready (.ok (some payload)), next, rest)) :
    next.stage = .idle ∧ source.supply rest ≤ source.supply w := by
  have taken := source.supply_gather_le (length + Aead.tagLength) got w
  rw [readBody] at h
  split at h
  · simp at h
  · simp at h
  · simp at h
  · rename_i gathered
    rw [gathered] at taken
    split at h
    · simp only [Prod.mk.injEq] at h
      obtain ⟨-, rfl, rfl⟩ := h
      exact ⟨rfl, taken⟩
    · simp at h

/-- A frame leaves the receiver between two frames, and took bytes from the stream unless part of
it was there already. -/
theorem nextFrame_some {source : Source ω} {r next : Receiver} {w rest : ω} {payload : Bytes}
    (h : r.nextFrame source w = (.ready (.ok (some payload)), next, rest)) :
    2 * source.supply rest + next.underway < 2 * source.supply w + r.underway := by
  have body {r : Receiver} {length got w}
      (h : r.readBody source length got w = (.ready (.ok (some payload)), next, rest)) :
      next.underway = 0 ∧ source.supply rest ≤ source.supply w := by
    simpa [underway] using readBody_some h
  rw [nextFrame] at h
  split at h
  · simp at h
  · split at h
    · simp at h
    · rw [readFrame] at h
      split at h
      · rename_i stage
        have := body h
        simp only [underway, stage, Stage.idle, reduceCtorEq, if_false] at this ⊢
        omega
      · rename_i got stage
        split at h
        · simp at h
        · simp at h
        · split at h <;> simp at h
        · rename_i gathered
          split at h
          · have := body h
            by_cases short : got.size < headerLength
            · have := source.supply_gather_lt short gathered
              omega
            · have := source.supply_gather_le headerLength got w
              rw [gathered] at this
              have busy : r.underway = 1 := by
                simp only [underway, stage, Stage.idle, Stage.header.injEq]
                rw [if_neg]
                rintro rfl
                simp [headerLength, lengthPrefixLength] at short
              simp only at this
              omega
          · simp at h
          · simp at h

/-- Reads up to `size` bytes of the plaintext, from as many frames as it takes to find one that is
not empty. No bytes mean that the stream has ended. -/
def read (source : Source ω) (size : Nat) (r : Receiver) (w : ω) :
    Poll (Except Error Bytes) × Receiver × ω :=
  if size = 0 then (.ready (.ok []), r, w)
  else if r.residual ≠ [] then
    (.ready (.ok (r.residual.take size)), { r with residual := r.residual.drop size }, w)
  else
    match _answer : r.nextFrame source w with
    | (.ready (.ok (some [])), r, w) => r.read source size w
    | (.ready (.ok (some payload)), r, w) =>
      (.ready (.ok (payload.take size)), { r with residual := payload.drop size }, w)
    | (.ready (.ok none), r, w) => (.ready (.ok []), r, w)
    | (.ready (.error error), r, w) => (.ready (.error error), r, w)
    | (.pending, r, w) => (.pending, r, w)
termination_by 2 * source.supply w + r.underway
decreasing_by exact nextFrame_some _answer

end Receiver
end NoiseLink
