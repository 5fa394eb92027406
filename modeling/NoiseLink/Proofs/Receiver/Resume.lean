import NoiseLink.Proofs.Receiver.Accept

/-! A receiver that was interrupted in the middle of a frame is compared with one that has the whole
frame before it. What was taken of the frame, its cipher and its stage determine where it began, and
going on from there comes to the same as starting over with the bytes put back. -/
namespace NoiseLink.Receiver

variable {ω : Type} {source : Source ω} {tape : ω → Option Tape}

/-- What a receiver has taken of a frame that it began under the cipher `c`, its cipher by then and
its stage. The header is opened as soon as it is whole, and its bytes are not kept. -/
inductive Taken (c : CipherState) : Bytes → CipherState → Stage → Prop where
  | header (got : Array UInt8) : got.size < headerLength → Taken c got.toList c (.header got)
  | body {high low : UInt8} {middle : CipherState} (header : Octets headerLength)
      (got : Array UInt8) : c.decrypt header.bytes = (.ok [high, low], middle) →
      got.size < Bytes.ofBigEndian [high, low] + Aead.tagLength →
      Taken c (header.bytes ++ got.toList) middle (.body (Bytes.ofBigEndian [high, low]) got)

/-- A live receiver that began its frame under the cipher `c`, when its stream held `t`. -/
structure Within (tape : ω → Option Tape) (c : CipherState) (t : Tape) (r : Receiver) (w : ω) :
    Prop where
  alive : r.terminated = false
  place : ∃ taken rest, Taken c taken r.cipher r.stage ∧ tape w = some rest ∧ rest.rewind taken = t

def rewound (c : CipherState) (r : Receiver) : Receiver := { r with cipher := c, stage := .idle }

theorem rewound_eq {r : Receiver} (alive : r.terminated = false) (c : CipherState) :
    r.rewound c = between c r.residual := by
  rw [rewound, between, alive]

theorem within_between {c : CipherState} {residual : Bytes} {w : ω} {t : Tape}
    (holds : tape w = some t) : Within tape c t (between c residual) w :=
  ⟨rfl, [], t, .header #[] (by decide), holds, rfl⟩

/-- Gathering the rest of a payload has to wait, or comes to the same as gathering all of it. -/
theorem readBody_resumes (hands : source.Hands tape) {w : ω} {t : Tape} (holds : tape w = some t)
    (length : Nat) (got : Array UInt8) (fits : got.size ≤ length + Aead.tagLength) (r : Receiver)
    (stage : Stage) :
    (∃ more after rest,
      r.readBody source length got w = (.pending, { r with stage := .body length more }, after) ∧
      more.size < length + Aead.tagLength ∧ source.Paused tape after rest ∧
      rest.rewind more.toList = t.rewind got.toList) ∨
    (∃ answer next after rest, r.readBody source length got w = (.ready answer, next, after) ∧
      tape after = some rest ∧
      ({ r with stage } : Receiver).readBody Tape.source length #[] (t.rewind got.toList) =
        (.ready answer, next, rest)) := by
  have reference := Tape.gather_eq (length + Aead.tagLength) #[] (t.rewind got.toList)
    (Nat.zero_le _)
  rw [Tape.rewind_nil] at reference
  rw [readBody, readBody, reference]
  rcases hands.gather holds fits with
    ⟨more, after, rest, gathered, short, paused, same⟩ |
    ⟨outcome, after, rest, gathered, settled, left, said⟩
  · exact .inl ⟨more, after, rest, by rw [gathered], short, paused, same⟩
  · rw [gathered, said]
    refine .inr ?_
    cases outcome with
    | waiting more => exact settled.elim
    | ended more => exact ⟨_, _, _, _, rfl, left, rfl⟩
    | failed cause more => exact ⟨_, _, _, _, rfl, left, rfl⟩
    | full unit =>
      simp only
      split <;> exact ⟨_, _, _, _, rfl, left, rfl⟩

/-- Going on with a frame has to wait and keeps its place, or comes to the same as starting over. -/
theorem Within.readFrame (hands : source.Hands tape) {c : CipherState} {t : Tape} {r : Receiver}
    {w : ω} (within : Within tape c t r w) :
    (∃ next after rest, r.readFrame source w = (.pending, next, after) ∧
      Within tape c t next after ∧ next.residual = r.residual ∧ source.Paused tape after rest) ∨
    (∃ answer next after rest, r.readFrame source w = (.ready answer, next, after) ∧
      tape after = some rest ∧
      (r.rewound c).readFrame Tape.source t = (.ready answer, next, rest)) := by
  obtain ⟨alive, taken, left, place, holds, rfl⟩ := within
  obtain ⟨cipher, stage, residual, terminated⟩ := r
  -- starting over, the header comes first whatever the stage was
  have reference (t : Tape) := Tape.gather_eq headerLength #[] t (Nat.zero_le _)
  simp only [Tape.rewind_nil] at reference
  simp only [rewound, Stage.idle, Receiver.readFrame, reference]
  cases place with
  | header got short =>
    rcases hands.gather holds (Nat.le_of_lt short) with
      ⟨more, after, rest, gathered, short, paused, same⟩ |
      ⟨outcome, after, rest, gathered, settled, left, said⟩
    · simp only [gathered]
      refine .inl ⟨_, after, rest, rfl, ⟨alive, ?_⟩, rfl, paused⟩
      exact ⟨more.toList, rest, .header more short, paused.holds hands, same⟩
    · simp only [gathered, said]
      cases outcome with
      | waiting more => exact settled.elim
      | failed cause more => exact .inr ⟨_, _, _, _, rfl, left, rfl⟩
      | ended more =>
        refine .inr ?_
        simp only
        split <;> exact ⟨_, _, _, _, rfl, left, rfl⟩
      | full header =>
        simp only
        split
        · rename_i high low middle opened
          rcases readBody_resumes hands left _ #[] (Nat.zero_le _)
              ⟨middle, .header got, residual, terminated⟩ (.header #[]) with
            ⟨more, later, remainder, body, short, paused, same⟩ | settled
          · refine .inl ⟨_, later, remainder, body, ⟨alive, ?_⟩, rfl, paused⟩
            refine ⟨_, remainder, .body header more opened short, paused.holds hands, ?_⟩
            rw [← Tape.rewind_rewind, same]
            exact (Tape.eq_rewind_of_unit said).symm
          · exact .inr settled
        · exact .inr ⟨_, _, _, _, rfl, left, rfl⟩
        · exact .inr ⟨_, _, _, _, rfl, left, rfl⟩
  | body header got opened short =>
    rw [← Tape.rewind_rewind, Tape.unit_full]
    simp only [opened]
    rcases readBody_resumes hands holds _ got (Nat.le_of_lt short)
        ⟨cipher, .body _ got, residual, terminated⟩ (.header #[]) with
      ⟨more, later, remainder, body, short, paused, same⟩ | settled
    · refine .inl ⟨_, later, remainder, body, ⟨alive, ?_⟩, rfl, paused⟩
      refine ⟨_, remainder, .body header more opened short, paused.holds hands, ?_⟩
      rw [← Tape.rewind_rewind, same]
    · exact .inr settled

theorem Within.nextFrame (hands : source.Hands tape) {c : CipherState} {t : Tape} {r : Receiver}
    {w : ω} (within : Within tape c t r w) :
    (∃ next after rest, r.nextFrame source w = (.pending, next, after) ∧
      Within tape c t next after ∧ next.residual = r.residual ∧ source.Paused tape after rest) ∨
    (∃ answer next after rest, r.nextFrame source w = (.ready answer, next, after) ∧
      tape after = some rest ∧
      (r.rewound c).nextFrame Tape.source t = (.ready answer, next, rest)) := by
  have live : (r.rewound c).terminated = false := within.alive
  rw [Receiver.nextFrame, Receiver.nextFrame, within.alive, live]
  rcases within.readFrame hands with
    ⟨next, after, rest, answer, kept⟩ | ⟨answer, next, after, rest, found, left, reference⟩
  · exact .inl ⟨next, after, rest, by simp [answer], kept⟩
  · refine .inr ?_
    simp only [found, reference]
    cases answer with
    | ok frame => exact ⟨_, _, _, _, rfl, left, rfl⟩
    | error error => exact ⟨_, _, _, _, rfl, left, rfl⟩

end NoiseLink.Receiver
