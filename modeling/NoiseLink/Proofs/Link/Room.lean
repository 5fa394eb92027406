import NoiseLink.Proofs.Link.RoundTrip
import NoiseLink.Proofs.Link.Writing
import NoiseLink.Proofs.Stream.Wires

/-! How much room a link takes on its stream. A frame has thirty-four bytes more than its payload, so where
no payload is empty the frames are at most thirty-five times as long as the bytes in them; and what was
handed out is on the stream no more. -/
namespace NoiseLink

variable {ω : Type} {wires : Wires ω} {capacity : Option Nat} {incoming : Role → ω → Option Tape}
  {tape : ω → Option Tape}

theorem CipherState.wireLength_le {payloads : List Bytes} (full : [] ∉ payloads) :
    wireLength payloads ≤ 35 * payloads.flatten.length := by
  rw [wireLength_flatten]
  induction payloads with
  | nil => exact Nat.le_refl 0
  | cons payload payloads ih =>
    have least : 0 < payload.length := by
      apply List.length_pos_iff.2
      rintro rfl
      exact full List.mem_cons_self
    have rest := ih fun member => full (List.mem_cons_of_mem _ member)
    simp only [List.flatten_cons, List.length_append, List.length_cons]
    omega

theorem Bytes.wireLength_chunks (bytes : Bytes) :
    CipherState.wireLength (chunks maxPayloadLength bytes) ≤ 35 * bytes.length := by
  have full : [] ∉ chunks maxPayloadLength bytes := fun member => ne_nil_of_mem_chunks member rfl
  have short := CipherState.wireLength_le full
  rwa [flatten_chunks] at short

/-- Only what was sent and not handed out can be on the stream. -/
theorem Link.Sound.length_le {payloads : List Bytes} {l : Link ω} (sound : l.Sound tape payloads)
    (full : [] ∉ l.frames) {t : Tape} (holds : tape l.world = some t) :
    t.bytes.length ≤ 35 * (l.sent.length - l.handed.length) := by
  obtain ⟨c, whole, within, frames, -⟩ := sound.expects
  obtain ⟨begun, rest, -, there, split⟩ := within.place
  rw [holds] at there
  cases there
  have behind := congrArg (fun tape => tape.bytes.length) split
  have size := frames.length_eq
  have short := CipherState.wireLength_le fun member => full (sound.last.subset member)
  have balance := congrArg List.length sound.balance
  simp only [Tape.rewind, List.length_append] at behind balance
  omega

namespace Wires.Apart

theorem sendFrames (apart : wires.Apart capacity incoming) (role : Role) {payloads : List Bytes}
    (fit : ∀ payload ∈ payloads, payload.length ≤ maxPayloadLength) {s : Sender}
    (alive : s.terminated = false) {w : ω} {t : Tape} (holds : incoming role.other w = some t)
    (quiet : t.ending = .quiet)
    (room : ∀ most ∈ capacity, t.bytes.length + CipherState.wireLength payloads ≤ most) :
    ∃ next after, Sender.sendFrames (wires.sink role) payloads s w = (.ready (.ok ()), next, after) := by
  induction payloads generalizing s w t with
  | nil => exact ⟨s, w, rfl⟩
  | cons payload payloads ih =>
    obtain ⟨fits, others⟩ := List.forall_mem_cons.1 fit
    obtain ⟨c, _⟩ := s
    cases alive
    obtain ⟨frame, middle, framed⟩ := c.frame_of_length fits
    have size := CipherState.length_of_frame framed
    have both : CipherState.wireLength (payload :: payloads) =
        frame.length + CipherState.wireLength payloads := by
      simp [CipherState.wireLength, size]
    obtain ⟨between, taken, there, -⟩ := apart.sent role holds quiet frame
      fun most limit => by
        have := room most limit
        omega
    obtain ⟨next, after, rest⟩ := ih others (s := .start middle) rfl there rfl fun most limit => by
      have := room most limit
      simp only [Tape.follow, List.length_append]
      omega
    refine ⟨next, after, ?_⟩
    have first : Sender.sendFrame _ payload ⟨c, false⟩ w = _ := Sender.sendFrame_of_taken framed taken
    rw [Sender.sendFrames, first]
    exact rest

/-- Whatever is on the stream, more can be written if there is room for it. -/
theorem written (apart : wires.Apart capacity incoming) (role : Role) {s : Sender}
    (alive : s.terminated = false) {w : ω} {t : Tape} (holds : incoming role.other w = some t)
    (quiet : t.ending = .quiet) {bytes : Bytes}
    (room : ∀ most ∈ capacity, t.bytes.length + 35 * bytes.length ≤ most) :
    ∃ next after, s.write (wires.sink role) bytes w = (.ready (.ok bytes.length), next, after) := by
  have fit : ∀ piece ∈ Bytes.chunks maxPayloadLength bytes, piece.length ≤ maxPayloadLength :=
    fun _ => Bytes.length_of_mem_chunks (by decide)
  have added := bytes.wireLength_chunks
  obtain ⟨next, after, sent⟩ := apart.sendFrames role fit alive holds quiet fun most limit => by
    have := room most limit
    omega
  exact ⟨next, after, by rw [Sender.write, sent]⟩

theorem write (apart : wires.Apart capacity incoming) (role : Role) {payloads : List Bytes} {l : Link ω}
    (sound : l.Sound (incoming role.other) payloads) (opened : l.closed = false) (full : [] ∉ l.frames)
    {bytes : Bytes}
    (room : ∀ most ∈ capacity, 35 * (l.sent.length - l.handed.length + bytes.length) ≤ most) :
    ∃ next after, l.sender.write (wires.sink role) bytes l.world =
      (.ready (.ok bytes.length), next, after) := by
  obtain ⟨t, holds, quiet⟩ := sound.expects.holds
  rw [opened, if_neg Bool.false_ne_true] at quiet
  have held := sound.length_le full holds
  refine apart.written role (sound.alive.trans opened) holds quiet fun most limit => ?_
  have := room most limit
  omega

end Wires.Apart
end NoiseLink
