import NoiseLink.Proofs.Receiver.Fragmentation
import NoiseLink.Proofs.Sender.Emission

/-! A receiver accepts what a sender with the same cipher would have put on the wire for the messages
that it returns, and nothing else, whatever is on the wire. -/
namespace NoiseLink.Receiver

variable {ω : Type} {source : Source ω} {tape : ω → Option Tape}

def answers (source : Source ω) (attempts : Nat) (r : Receiver) (w : ω) : List (Except Error Bytes) :=
  (run source (.replicate attempts .receive) r w).1.map (·.answer)

theorem answers_of_pending {attempts : Nat} {r next : Receiver} {w after : ω}
    (h : r.receive source w = (.pending, next, after)) :
    answers source (attempts + 1) r w = answers source attempts next after := by
  have attempted : r.attempt source .receive w = (.pending, next, after) := h
  rw [answers, List.replicate_succ, run_cons_of_pending attempted, answers]

theorem answers_of_ready {attempts : Nat} {r next : Receiver} {w after : ω}
    {answer : Except Error Bytes} (h : r.receive source w = (.ready answer, next, after)) :
    answers source (attempts + 1) r w = answer :: answers source attempts next after := by
  have attempted : r.attempt source .receive w = (.ready answer, next, after) := h
  rw [answers, List.replicate_succ, run_cons_of_ready attempted, answers]
  rfl

/-- The first answer is the one that the reference receiver gets. -/
theorem Mirrors.first (hands : source.Hands tape) {attempts : Nat} {reference r : Receiver} {t : Tape}
    {w : ω} {answer : Except Error Bytes} {others : List (Except Error Bytes)}
    (mirrors : Mirrors tape reference t r w) (h : answers source attempts r w = answer :: others) :
    ∃ later next rest s after, reference.receive Tape.source t = (.ready answer, next, rest) ∧
      Mirrors tape next rest s after ∧ answers source later s after = others := by
  induction attempts generalizing reference r t w with
  | zero => cases h
  | succ attempts ih =>
    rcases mirrors.receive hands with
      ⟨next, after, waits, kept⟩ | ⟨found, next, after, rest, received, expected, -, kept⟩
    · rw [answers_of_pending waits] at h
      exact ih kept h
    · rw [answers_of_ready received] at h
      cases h
      exact ⟨attempts, next, rest, next, after, expected, kept, rfl⟩

/-- Messages that were received stand at the front of the tape, as their frames. -/
theorem Mirrors.frames (hands : source.Hands tape) {attempts : Nat} {messages : List Bytes}
    {c : CipherState} {r : Receiver} {t : Tape} {w : ω} {others : List (Except Error Bytes)}
    (mirrors : Mirrors tape (between c []) t r w)
    (h : answers source attempts r w = messages.map .ok ++ others) :
    (∀ message ∈ messages, message.length ≤ maxPayloadLength) ∧
    ∃ wire last rest later s after, c.Frames messages wire last ∧ t = rest.rewind wire ∧
      Mirrors tape (between last []) rest s after ∧ answers source later s after = others := by
  induction messages generalizing c r t w attempts with
  | nil => exact ⟨nofun, [], c, t, attempts, r, w, .nil, rfl, mirrors, h⟩
  | cons message messages ih =>
    obtain ⟨later, next, rest, s, after, received, kept, remaining⟩ := mirrors.first hands h
    obtain ⟨fits, wire, middle, framed, rfl, rfl⟩ := receive_tape_ok_iff.1 received
    obtain ⟨fit, tail, last, left, final, s', after', frames, rfl, mirrored, same⟩ := ih kept remaining
    refine ⟨List.forall_mem_cons.2 ⟨fits, fit⟩, wire ++ tail, last, left, final, s', after',
      .cons framed frames, ?_, mirrored, same⟩
    rw [Tape.rewind_rewind]

/-- If the clean end is reported after some messages, their frames are all of the tape. -/
theorem emits_of_closed (hands : source.Hands tape) {w : ω} {t : Tape} (holds : tape w = some t)
    {c : CipherState} {attempts : Nat} {messages : List Bytes} {others : List (Except Error Bytes)}
    (h : answers source attempts (start c) w = messages.map .ok ++ .error .streamClosed :: others) :
    t.ending = .closed ∧ ∃ last, Sender.Emits c messages t.bytes last := by
  have mirrors : Mirrors tape (between c []) t (start c) w := .live rfl (within_between holds)
  obtain ⟨fit, wire, last, rest, later, s, after, frames, rfl, mirrored, remaining⟩ :=
    mirrors.frames hands h
  obtain ⟨-, next, left, -, -, closed, -⟩ := mirrored.first hands remaining
  obtain ⟨rfl, -⟩ := receive_tape_closed_iff.1 closed
  exact ⟨rfl, last, Sender.emits_iff.2 ⟨fit, by rwa [Tape.rewind, List.append_nil]⟩⟩

/-- The frames of messages are received as these messages. -/
theorem answers_frames {c last : CipherState} {messages : List Bytes} {wire : Bytes}
    (frames : c.Frames messages wire last)
    (fit : ∀ message ∈ messages, message.length ≤ maxPayloadLength) (attempts : Nat) (rest : Tape) :
    answers Tape.source (messages.length + attempts) (between c []) (rest.rewind wire) =
      messages.map .ok ++ answers Tape.source attempts (between last []) rest := by
  induction frames with
  | nil => simp
  | @cons c next last message messages wire tail framed frames ih =>
    obtain ⟨fits, others⟩ := List.forall_mem_cons.1 fit
    have received := receive_tape_ok_iff.2
      ⟨fits, wire, next, framed, rfl, (Tape.rewind_rewind rest wire tail).symm⟩
    rw [List.length_cons, Nat.add_right_comm, answers_of_ready received, ih others]
    rfl

/-- On any wire, the messages that a fresh receiver returns are those that a fresh sender with the
same cipher would have put there: their frames are the first bytes of the wire, so they agree with the
genuine ones as far as the messages do, and are all of the wire if its end is reported after them.
Every list of messages that fit into frames is returned for one wire. -/
theorem accepts_only_emission (hands : source.Hands tape) {w : ω} {t : Tape}
    (holds : tape w = some t) (c : CipherState) :
    (∀ attempts messages others,
      answers source attempts (start c) w = messages.map .ok ++ others →
      let length := (messages.map fun message => 34 + message.length).sum
      length ≤ t.bytes.length ∧
      (∃ last, Sender.Emits c messages (t.bytes.take length) last) ∧
      (∀ sent genuine last, Sender.Emits c sent genuine last → messages <+: sent →
        t.bytes.take length <+: genuine) ∧
      (others.head? = some (.error .streamClosed) →
        t.ending = .closed ∧ ∃ last, Sender.Emits c messages t.bytes last)) ∧
    (∀ messages : List Bytes, (∀ message ∈ messages, message.length ≤ maxPayloadLength) →
      ∃ wire, ∀ other, answers Tape.source (messages.length + 1) (start c) ⟨other, .closed⟩ =
        messages.map .ok ++ [.error .streamClosed] ↔ other = wire) := by
  constructor
  · intro attempts messages others received
    have mirrors : Mirrors tape (between c []) t (start c) w := .live rfl (within_between holds)
    obtain ⟨fit, wire, last, rest, -, -, -, frames, rfl, -⟩ := mirrors.frames hands received
    have size : (messages.map fun message => 34 + message.length).sum = wire.length := by
      rw [frames.length_eq, CipherState.wireLength_eq]
    intro length
    have begins : (rest.rewind wire).bytes.take length = wire := by
      simp only [length, size, Tape.rewind, List.take_left']
    rw [begins]
    refine ⟨?_, ⟨last, Sender.emits_iff.2 ⟨fit, frames⟩⟩, ?_, ?_⟩
    · simp [length, size, Tape.rewind]
    · rintro sent genuine final emits ⟨more, rfl⟩
      obtain ⟨before, middle, tail, first, -, rfl⟩ := (Sender.emits_iff.1 emits).2.of_append
      obtain ⟨rfl, -⟩ := frames.unique first
      exact List.prefix_append wire tail
    · intro closed
      cases others with
      | nil => simp at closed
      | cons answer others =>
        cases closed
        exact emits_of_closed hands holds received
  · intro messages fit
    obtain ⟨wire, last, frames⟩ := CipherState.Frames.of_lengths c fit
    refine ⟨wire, fun other => ⟨fun received => ?_, ?_⟩⟩
    · obtain ⟨-, final, emits⟩ := emits_of_closed Tape.hands_source rfl received
      exact ((Sender.emits_iff.1 emits).2.unique frames).1
    · rintro rfl
      have received := answers_frames frames fit 1 ⟨[], .closed⟩
      rw [answers_of_ready (receive_tape_closed last), Tape.rewind, List.append_nil] at received
      exact received

/-- A frame that carries two bytes, and a stray byte behind it. -/
theorem accepts_only_emission_of_two_bytes : ∃ wire : Bytes,
    Tape.source.Hands some ∧
    answers Tape.source 1 (start (.start (.zero 32) (.zero 32))) ⟨wire ++ [7], .quiet⟩ =
      [.ok [104, 105]] ∧
    ∃ last, Sender.Emits (.start (.zero 32) (.zero 32)) [[104, 105]] ((wire ++ [7]).take 36) last := by
  have fit : ∀ message ∈ [([104, 105] : Bytes)], message.length ≤ maxPayloadLength := by
    intro message member
    rw [List.mem_singleton.1 member]
    decide
  obtain ⟨wire, last, frames⟩ := CipherState.Frames.of_lengths (.start (.zero 32) (.zero 32)) fit
  have received := answers_frames frames fit 0 ⟨[7], .quiet⟩
  have accepted := accepts_only_emission Tape.hands_source (t := ⟨wire ++ [7], .quiet⟩) rfl
    (.start (.zero 32) (.zero 32))
  obtain ⟨-, emitted, -⟩ := accepted.1 1 [[104, 105]] [] received
  exact ⟨wire, Tape.hands_source, received, emitted⟩

end NoiseLink.Receiver
