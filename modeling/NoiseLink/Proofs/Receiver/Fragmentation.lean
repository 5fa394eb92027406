import NoiseLink.Proofs.Receiver.Calls
import NoiseLink.Proofs.Receiver.Pieces

/-! Neither the pieces in which a stream arrives nor the calls that are given up make a difference to
a receiver. It is compared with one that has the same tape before it, is handed at once all that it
asks for and never gives up. -/
namespace NoiseLink.Receiver

variable {ω : Type} {source : Source ω} {tape : ω → Option Tape}

/-- A receiver and the reference receiver on the tape of its stream. While the first is within a
frame, the other has not begun it. -/
inductive Mirrors (tape : ω → Option Tape) : Receiver → Tape → Receiver → ω → Prop where
  | live {c t r w} : r.residual = [] → Within tape c t r w → Mirrors tape (between c []) t r w
  | halted {t r w} : r.residual = [] → r.terminated = true → tape w = some t → Mirrors tape r t r w

theorem Mirrors.receive (hands : source.Hands tape) {reference r : Receiver} {t : Tape} {w : ω}
    (mirrors : Mirrors tape reference t r w) :
    (∃ next after, r.receive source w = (.pending, next, after) ∧ Mirrors tape reference t next after) ∨
    (∃ answer next after rest, r.receive source w = (.ready answer, next, after) ∧
      reference.receive Tape.source t = (.ready answer, next, rest) ∧ tape after = some rest ∧
      Mirrors tape next rest next after) := by
  cases mirrors with
  | halted clear ended holds =>
    refine .inr ⟨.error .terminated, reference, w, t, ?_, ?_, holds, .halted clear ended holds⟩
    · simp [Receiver.receive, Receiver.nextFrame, clear, ended]
    · simp [Receiver.receive, Receiver.nextFrame, clear, ended]
  | @live c t r w clear within =>
    have whole : r.rewound c = between c [] := by rw [rewound_eq within.alive, clear]
    have receives := receive_of_clear source clear w
    have expected := receive_of_clear Tape.source (show (between c []).residual = [] from rfl) t
    rcases within.nextFrame hands with
      ⟨next, after, rest, answer, kept, same, -⟩ | ⟨answer, next, after, rest, found, left, reference⟩
    · rw [answer] at receives
      exact .inl ⟨next, after, receives, .live (same.trans clear) kept⟩
    · rw [whole] at reference
      rw [found] at receives
      rw [reference] at expected
      refine .inr ?_
      cases answer with
      | error error =>
        have ended := terminated_of_nextFrame_error found
        have kept := nextFrame_residual source r w
        rw [found] at kept
        exact ⟨_, next, after, rest, receives, expected, left,
          .halted (kept.trans clear) ended left⟩
      | ok frame =>
        cases frame with
        | none =>
          obtain ⟨-, -, rfl⟩ := nextFrame_tape_none_iff.1 reference
          exact ⟨_, _, after, rest, receives, expected, left, .live rfl (within_between left)⟩
        | some payload =>
          obtain ⟨-, wire, last, -, rfl, -⟩ := nextFrame_tape_some_iff.1 reference
          exact ⟨_, _, after, rest, receives, expected, left, .live rfl (within_between left)⟩

def Completed.seen (tape : ω → Option Tape) (d : Completed ω) :
    Except Error Bytes × Receiver × Option Tape :=
  (d.answer, d.receiver, tape d.world)

/-- Attempts to receive and the calls of the reference that answer to those that are completed. -/
theorem Mirrors.run (hands : source.Hands tape) (attempts : Nat) {reference r : Receiver} {t : Tape}
    {w : ω} (mirrors : Mirrors tape reference t r w) :
    ∃ done next after expected rest,
      run source (.replicate attempts .receive) r w = (done, next, after) ∧
      run Tape.source (.replicate done.length .receive) reference t = (expected, rest) ∧
      done.map (Completed.seen tape) = expected.map (Completed.seen some) ∧
      Mirrors tape rest.1 rest.2 next after := by
  induction attempts generalizing reference r t w with
  | zero => exact ⟨[], r, w, [], (reference, t), rfl, rfl, rfl, mirrors⟩
  | succ attempts ih =>
    rcases mirrors.receive hands with
      ⟨next, after, waits, kept⟩ | ⟨answer, next, after, rest, found, expected, left, kept⟩
    · obtain ⟨done, last, world, others, final, ran, compared⟩ := ih kept
      refine ⟨done, last, world, others, final, ?_, compared⟩
      have attempted : r.attempt source .receive w = (.pending, next, after) := waits
      rw [List.replicate_succ, run_cons_of_pending attempted, ran]
    · obtain ⟨done, last, world, others, final, ran, compared, same, mirrored⟩ := ih kept
      refine ⟨⟨.receive, answer, next, after⟩ :: done, last, world,
        ⟨.receive, answer, next, rest⟩ :: others, final, ?_, ?_, ?_, mirrored⟩
      · have attempted : r.attempt source .receive w = (.ready answer, next, after) := found
        rw [List.replicate_succ, run_cons_of_ready attempted, ran]
      · have attempted : reference.attempt Tape.source .receive t = (.ready answer, next, rest) :=
          expected
        rw [List.length_cons, List.replicate_succ, run_cons_of_ready attempted, compared]
      · rw [List.map_cons, List.map_cons, same, Completed.seen, Completed.seen, left]

/-- An interrupted receiver is at the cipher of the reference, or has opened one header since. -/
theorem Mirrors.cipher {reference r : Receiver} {t : Tape} {w : ω}
    (mirrors : Mirrors tape reference t r w) :
    r.cipher = reference.cipher ∨ ∃ length got, r.stage = .body length got ∧
      reference.cipher.decrypt (t.bytes.take headerLength) =
        (.ok (Bytes.bigEndian lengthPrefixLength length), r.cipher) := by
  cases mirrors with
  | halted => exact .inl rfl
  | @live c t r w clear within =>
    obtain ⟨alive, taken, left, place, holds, rfl⟩ := within
    obtain ⟨cipher, stage, residual, terminated⟩ := r
    cases place with
    | header got short => exact .inl rfl
    | @body high low middle header got opened short =>
      refine .inr ⟨_, got, rfl, ?_⟩
      have whole : ((left.rewind (header.bytes ++ got.toList)).bytes).take headerLength =
          header.bytes := by
        simp [Tape.rewind]
      rw [whole, Bytes.bigEndian_ofBigEndian_two]
      exact opened

theorem receiveAll_eq (messages : Array Bytes) (r : Receiver) (w : ω) :
    r.receiveAll source messages w =
      match r.receive source w with
      | (.ready (.ok message), r, w) => r.receiveAll source (messages.push message) w
      | (.ready (.error error), r, w) => (messages, .failed error, r, w)
      | (.pending, r, w) => (messages, .pending, r, w) := by
  rw [receiveAll]
  split <;> simp_all

theorem receiveAll_append (source : Source ω) (before messages : Array Bytes) (r : Receiver) (w : ω) :
    r.receiveAll source (before ++ messages) w =
      (before ++ (r.receiveAll source messages w).1, (r.receiveAll source messages w).2) := by
  fun_induction Receiver.receiveAll source messages r w with
  | case1 messages r w message next after answer ih =>
    rw [receiveAll_eq, answer]
    simp only [← Array.append_push]
    exact ih
  | case2 messages r w error next after answer => rw [receiveAll_eq, answer]
  | case3 messages r w next after answer => rw [receiveAll_eq, answer]

/-- The messages that a tape holds for a receiver, and what stops the receiver after them. -/
def transcript (c : CipherState) (t : Tape) : List Bytes × Stop Error :=
  (((start c).receiveAll Tape.source #[] t).1.toList, ((start c).receiveAll Tape.source #[] t).2.1)

theorem transcript_of_message {c : CipherState} {payload : Bytes} {last : CipherState} {t rest : Tape}
    (h : (between c []).nextFrame Tape.source t =
      (.ready (.ok (some payload)), between last [], rest)) :
    transcript c t = (payload :: (transcript last rest).1, (transcript last rest).2) := by
  have received : (start c).receive Tape.source t =
      (.ready (.ok payload), between last [], rest) := by
    change (between c []).receive Tape.source t = _
    rw [receive_of_clear Tape.source rfl, h]
  have kept := receiveAll_append Tape.source #[payload] #[] (start last) rest
  rw [Array.append_empty] at kept
  have whole : (start c).receiveAll Tape.source #[] t =
      (start last).receiveAll Tape.source #[payload] rest := by
    rw [receiveAll_eq, received]
    rfl
  rw [transcript, whole, kept, transcript]
  simp

theorem transcript_of_error {c : CipherState} {error : Error} {next : Receiver} {t rest : Tape}
    (h : (start c).receive Tape.source t = (.ready (.error error), next, rest)) :
    transcript c t = ([], .failed error) := by
  rw [transcript, receiveAll_eq, h]

/-- The transcript of a tape tells what the reference receiver makes of it. -/
theorem contents_transcript :
    Contents fun c t payloads stop => transcript c t = (payloads, stop) where
  message {c t payloads stop payload last rest} reads found := by
    rw [transcript_of_message found] at reads
    cases reads
    exact ⟨_, rfl, rfl⟩
  ended {c payloads stop} reads := by
    rw [transcript_of_error (receive_tape_closed c)] at reads
    cases reads
    exact ⟨rfl, rfl⟩
  failed {c t payloads stop error next rest} reads found := by
    have received : (start c).receive Tape.source t = (.ready (.error error), next, rest) := by
      change (between c []).receive Tape.source t = _
      rw [receive_of_clear Tape.source rfl, found]
    rw [transcript_of_error received] at reads
    cases reads
    exact ⟨rfl, rfl⟩

/-- On every stream that hands out a tape, and with any attempts given up, the completed calls of a
receiver of messages are those of the reference run of as many calls: the answers, the states that
they leave and what is left of the stream. In between no more than the header of the next frame was
opened, and that once. With reads of any sizes among the calls, the bytes handed out are the first of
those that the tape holds, and all of them once an error or the end is reported. Only a stream that
makes its receiver wait keeps a call from being completed. -/
theorem fragmentation_independent (hands : source.Hands tape) {w : ω} {t : Tape}
    (holds : tape w = some t) (c : CipherState) :
    (∀ attempts, ∃ done next after expected reference rest,
      run source (.replicate attempts .receive) (start c) w = (done, next, after) ∧
      run Tape.source (.replicate done.length .receive) (start c) t = (expected, reference, rest) ∧
      done.map (Completed.seen tape) = expected.map (Completed.seen some) ∧
      (next.cipher = reference.cipher ∨ ∃ length got, next.stage = .body length got ∧
        reference.cipher.decrypt (rest.bytes.take headerLength) =
          (.ok (Bytes.bigEndian lengthPrefixLength length), next.cipher))) ∧
    (∀ calls, ∃ done next after,
      run source calls (start c) w = (done, next, after) ∧
      done.flatMap Completed.bytes <+: (transcript c t).1.flatten ∧
      (∀ error, done.findSome? Completed.stop = some error →
        done.flatMap Completed.bytes = (transcript c t).1.flatten ∧
          (transcript c t).2 = .failed error) ∧
      ∀ call last world, next.attempt source call after = (.pending, last, world) →
        ∃ left, source.Paused tape world left) := by
  constructor
  · intro attempts
    have mirrors : Mirrors tape (start c) t (start c) w := .live rfl (within_between holds)
    obtain ⟨done, next, after, expected, rest, ran, compared, same, mirrored⟩ :=
      mirrors.run hands attempts
    exact ⟨done, next, after, expected, rest.1, rest.2, ran, compared, same, mirrored.cipher⟩
  · intro calls
    have expects : Expects (fun c t payloads stop => transcript c t = (payloads, stop)) tape
        (transcript c t).1 (transcript c t).2 (start c) w := ⟨c, t, within_between holds, rfl⟩
    obtain ⟨done, next, after, left, ran, balance, owes, stops⟩ :=
      expects.run hands contents_transcript calls
    change (transcript c t).1.flatten = done.flatMap Completed.bytes ++ left at balance
    refine ⟨done, next, after, ran, ⟨left, balance.symm⟩, ?_, ?_⟩
    · intro error found
      obtain ⟨rfl, reason⟩ := stops error found
      exact ⟨by rw [balance, List.append_nil], reason⟩
    · intro call last world waits
      exact owes.paused hands contents_transcript waits

/-- A frame that comes in four pieces. The first three calls are given up: within the header, between the
header and the payload, and within the payload. The last one gets what it would get at once. -/
theorem fragmentation_independent_trickle :
    let c := CipherState.start (.zero 32) (.zero 32)
    ∃ wire last first second third fourth middle, c.frame [7] = (.ok wire, last) ∧
      pieces.Hands pieces? ∧ pieces? [first, second, third, fourth] = some ⟨wire, .quiet⟩ ∧
      run pieces [.receive, .receive] (start c) [first, second, third, fourth] =
        ([], ⟨middle, .body 1 #[], [], false⟩, [third, fourth]) ∧
      ∃ done next after expected reference rest,
        run pieces (.replicate 4 .receive) (start c) [first, second, third, fourth] = (done, next, after) ∧
        run Tape.source [.receive] (start c) ⟨wire, .quiet⟩ = (expected, reference, rest) ∧
        done.map (Completed.seen pieces?) = expected.map (Completed.seen some) ∧
        done.map Completed.answer = [.ok [7]] := by
  intro c
  have fits : ([7] : Bytes).length ≤ maxPayloadLength := by decide
  obtain ⟨wire, last, framed⟩ := c.frame_of_length fits
  obtain ⟨header, middle, body, opens, holds, rfl⟩ := CipherState.frame_ok_iff.1 framed
  have size : header.length = headerLength := CipherState.length_of_encrypt opens
  have rest : body.length = ([7] : Bytes).length + Aead.tagLength := CipherState.length_of_encrypt holds
  have waits {r next : Receiver} {w after : List Bytes} (clear : r.residual = [])
      (found : r.nextFrame pieces w = (.pending, next, after)) :
      r.attempt pieces .receive w = (.pending, next, after) := by
    rw [attempt, receive_of_clear pieces clear, found]
  obtain ⟨first, second, rfl, early, begun⟩ : ∃ first second, header = first ++ second ∧
      first.length < headerLength ∧ second ≠ [] :=
    ⟨header.take 10, header.drop 10, by simp, by simp [size]; decide, by simp [size]; decide⟩
  obtain ⟨third, fourth, rfl, late, more⟩ : ∃ third fourth, body = third ++ fourth ∧
      third.length < 1 + Aead.tagLength ∧ fourth ≠ [] :=
    ⟨body.take 5, body.drop 5, by simp, by simp [rest]; decide, by simp [rest]; decide⟩
  have none (bytes : Bytes) : (#[] : Array UInt8) ++ bytes = bytes.toArray := by simp
  have one : (start c).attempt pieces .receive [first, second, third, fourth] =
      (.pending, ⟨c, .header first.toArray, [], false⟩, [second, third, fourth]) := by
    rw [← none first]
    exact waits rfl (nextFrame_header_waits (by simpa using early) _)
  have two : attempt pieces .receive ⟨c, .header first.toArray, [], false⟩ [second, third, fourth] =
      (.pending, ⟨middle, .body 1 #[], [], false⟩, [third, fourth]) := by
    have behind : nextFrame pieces ⟨c, .header first.toArray, [], false⟩
        ((second ++ []) :: [third, fourth]) = _ :=
      nextFrame_header fits opens begun rfl [] [third, fourth]
    rw [List.append_nil] at behind
    exact waits rfl (behind.trans (nextFrame_body_waits (by decide) _))
  have three : attempt pieces .receive ⟨middle, .body 1 #[], [], false⟩ [third, fourth] =
      (.pending, ⟨middle, .body 1 third.toArray, [], false⟩, [fourth]) := by
    rw [← none third]
    exact waits rfl (nextFrame_body_waits (by simpa using late) _)
  have four : attempt pieces .receive ⟨middle, .body 1 third.toArray, [], false⟩ [fourth] =
      (.ready (.ok [7]), between last [], [[]]) := by
    have found : nextFrame pieces ⟨middle, .body 1 third.toArray, [], false⟩ ((fourth ++ []) :: []) = _ :=
      nextFrame_body holds more rfl [] []
    rw [List.append_nil] at found
    rw [attempt, receive_of_clear pieces rfl, found]
  have given : run pieces [.receive, .receive] (start c) [first, second, third, fourth] =
      ([], ⟨middle, .body 1 #[], [], false⟩, [third, fourth]) := by
    rw [run_cons_of_pending one, run_cons_of_pending two, run]
  have made : run pieces (.replicate 4 .receive) (start c) [first, second, third, fourth] =
      ([⟨.receive, .ok [7], between last [], [[]]⟩], between last [], [[]]) := by
    change run pieces [.receive, .receive, .receive, .receive] (start c) [first, second, third, fourth] = _
    rw [run_cons_of_pending one, run_cons_of_pending two, run_cons_of_pending three,
      run_cons_of_ready four, run]
  have whole : pieces? [first, second, third, fourth] =
      some ⟨(first ++ second) ++ (third ++ fourth), .quiet⟩ := by
    simp [pieces?]
  obtain ⟨done, next, after, expected, reference, left, ran, compared, same, -⟩ :=
    (fragmentation_independent hands_pieces whole c).1 4
  cases made.symm.trans ran
  exact ⟨_, last, first, second, third, fourth, middle, framed, hands_pieces, whole, given, _, _, _, expected,
    reference, left, made, compared, same, rfl⟩

end NoiseLink.Receiver
