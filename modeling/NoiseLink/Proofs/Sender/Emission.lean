import NoiseLink.Proofs.Cipher.Frames

/-! What a sender puts on the wire, seen on a sink that takes everything and keeps it. Its messages
come out as the frames of its cipher, each where the one before ended. -/
namespace NoiseLink

def recorder : Sink Bytes where
  send bytes sent := (.ready (.ok ()), sent ++ bytes)
  resume sent := (.ready (.ok ()), sent)
  close sent := (.ready (.ok ()), sent)

namespace Sender

theorem length_of_write {sink : Sink ω} {s : Sender} {bytes : Bytes} {w : ω} {written : Nat}
    (h : (s.write sink bytes w).1 = .ready (.ok written)) : written = bytes.length := by
  rw [write] at h
  split at h <;> cases h
  rfl

/-- Sends some messages, one after the other, and lists the answers. -/
def sendEach (sink : Sink ω) : List Bytes → Sender → ω → List (Poll (Except Error Unit)) × Sender × ω
  | [], s, w => ([], s, w)
  | message :: messages, s, w =>
    let (answer, s, w) := s.send sink message w
    let (answers, last) := sendEach sink messages s w
    (answer :: answers, last)

/-- A fresh sender takes all the messages, and what it puts on the wire for them. -/
def Emits (c : CipherState) (messages : List Bytes) (wire : Bytes) (last : CipherState) : Prop :=
  (start c).sendEach recorder messages [] =
    (.replicate messages.length (.ready (.ok ())), start last, wire)

theorem sendFrame_of_taken {sink : Sink ω} {c next : CipherState} {payload wire : Bytes} {w after : ω}
    (framed : c.frame payload = (.ok wire, next)) (taken : sink.send wire w = (.ready (.ok ()), after)) :
    (start c).sendFrame sink payload w = (.ready (.ok ()), start next, after) := by
  simp [sendFrame, start, framed, taken]

/-- A sender that is fresh hands the frame of a message to the sink. -/
theorem send_of_taken {sink : Sink ω} {c next : CipherState} {message wire : Bytes} {w after : ω}
    (fits : message.length ≤ maxPayloadLength) (framed : c.frame message = (.ok wire, next))
    (taken : sink.send wire w = (.ready (.ok ()), after)) :
    (start c).send sink message w = (.ready (.ok ()), start next, after) := by
  rw [send, if_neg (by omega), sendFrame_of_taken framed taken]

theorem send_recorder_ok {c : CipherState} {message sent : Bytes}
    (h : ((start c).send recorder message sent).1 = .ready (.ok ())) :
    message.length ≤ maxPayloadLength := by
  rw [send] at h
  split at h
  · simp at h
  · omega

theorem sendEach_recorder_iff {c last : CipherState} {messages : List Bytes} {sent after : Bytes} :
    (start c).sendEach recorder messages sent =
      (.replicate messages.length (.ready (.ok ())), start last, after) ↔
      (∀ message ∈ messages, message.length ≤ maxPayloadLength) ∧
        ∃ wire, c.Frames messages wire last ∧ after = sent ++ wire := by
  induction messages generalizing c sent with
  | nil =>
    constructor
    · intro h
      cases h
      exact ⟨nofun, [], .nil, (List.append_nil after).symm⟩
    · rintro ⟨-, wire, frames, rfl⟩
      cases frames
      simp [sendEach]
  | cons message messages ih =>
    constructor
    · intro h
      rw [sendEach, List.length_cons, List.replicate_succ] at h
      simp only [Prod.mk.injEq, List.cons.injEq] at h
      obtain ⟨⟨answer, answers⟩, rest⟩ := h
      have fits := send_recorder_ok answer
      obtain ⟨wire, next, framed⟩ := c.frame_of_length fits
      rw [send_of_taken fits framed rfl] at answers rest
      obtain ⟨others, tail, frames, rfl⟩ := ih.1 (Prod.ext answers rest)
      refine ⟨List.forall_mem_cons.2 ⟨fits, others⟩, wire ++ tail, .cons framed frames, ?_⟩
      rw [List.append_assoc]
    · rintro ⟨fit, wire, frames, rfl⟩
      cases frames with
      | cons framed frames =>
        obtain ⟨fits, others⟩ := List.forall_mem_cons.1 fit
        rw [sendEach, send_of_taken fits framed rfl]
        simp only
        rw [ih.2 ⟨others, _, frames, (List.append_assoc ..).symm⟩, List.length_cons, List.replicate_succ]

theorem emits_iff {c last : CipherState} {messages : List Bytes} {wire : Bytes} :
    Emits c messages wire last ↔
      (∀ message ∈ messages, message.length ≤ maxPayloadLength) ∧ c.Frames messages wire last := by
  rw [Emits, sendEach_recorder_iff]
  simp

end Sender
end NoiseLink
