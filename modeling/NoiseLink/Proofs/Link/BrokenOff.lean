import NoiseLink.Proofs.Receiver.Cut
import NoiseLink.Proofs.Sender.Faults

/-! A direction whose sender fails. The sink may fail it or stall in any of its calls, and may have taken
any part of a frame by then. What has arrived is cut at most once, at its end, so a receiver gets all
frames that are whole and never a unit that it cannot open. -/
namespace NoiseLink

open Receiver (Completed Expects answers)

/-- What receivers with the cipher `c` make of any stream that brings the wire in any pieces and then
ends, fails or is silent: the messages in order, all of them before anything is reported, and nothing
that does not open. -/
structure Receiver.Delivered {ω : Type} (source : Source ω) (tape : ω → Option Tape) (w : ω)
    (c : CipherState) (messages : List Bytes) : Prop where
  received : ∀ attempts, (answers source attempts (start c) w).filterMap Except.toOption <+: messages
  handed : ∀ calls, (run source calls (start c) w).1.flatMap Completed.bytes <+: messages.flatten
  opened : ∀ calls, ∀ d ∈ (run source calls (start c) w).1, d.answer ≠ .error .decryptionFailed
  whole : ∀ calls error, (run source calls (start c) w).1.findSome? Completed.stop = some error →
    (run source calls (start c) w).1.flatMap Completed.bytes = messages.flatten
  all : source.Prompt tape → ∃ stop receiver after,
    (start c).receiveAll source #[] w = (messages.toArray, stop, receiver, after) ∧
      stop ≠ .failed .decryptionFailed

/-- What a receiver makes of a wire that is cut, and how long the beginning of the broken frame is. -/
theorem CipherState.Cut.transcript {c : CipherState} {sent : List Bytes} {next : Option Bytes}
    {wire : Bytes} (cut : c.Cut sent next wire)
    (fit : ∀ payload ∈ sent ++ next.toList, payload.length ≤ maxPayloadLength) (ending : Ending) :
    ∃ begun, Receiver.transcript c ⟨wire, ending⟩ = (sent, ending.stop begun) ∧
      wire.length = wireLength sent + begun.length ∧
      ∀ payload ∈ next, begun.length < headerLength + (payload.length + Aead.tagLength) := by
  obtain ⟨fits, beyond⟩ := List.forall_mem_append.1 fit
  cases cut with
  | whole frames =>
    have read := Receiver.transcript_frames frames fits (.header #[] (by decide)) ending
    rw [List.append_nil] at read
    exact ⟨_, read, frames.length_eq, nofun⟩
  | begun frames framed begins part =>
    obtain ⟨middle, stage, taken⟩ :=
      Receiver.taken_of_prefix framed (beyond _ (by simp)) begins part
    refine ⟨_, Receiver.transcript_frames frames fits taken ending, ?_, ?_⟩
    · rw [List.length_append, frames.length_eq]
    · rintro payload ⟨⟩
      rw [← CipherState.length_of_frame framed]
      exact Nat.lt_of_le_of_ne begins.length_le fun same => part (begins.eq_of_length same)

theorem CipherState.Cut.delivered {c : CipherState} {sent : List Bytes} {next : Option Bytes}
    {wire : Bytes} (cut : c.Cut sent next wire)
    (fit : ∀ payload ∈ sent ++ next.toList, payload.length ≤ maxPayloadLength) {ω : Type}
    {source : Source ω} {tape : ω → Option Tape} (hands : source.Hands tape) {w : ω} {ending : Ending}
    (holds : tape w = some ⟨wire, ending⟩) : Receiver.Delivered source tape w c sent := by
  obtain ⟨begun, read, -⟩ := cut.transcript fit ending
  have opens : ending.stop begun ≠ .failed .decryptionFailed := by
    cases ending with
    | quiet => simp [Ending.stop]
    | failing cause => simp [Ending.stop]
    | closed =>
      rw [Ending.stop]
      split <;> simp
  have expects : Expects (fun c t payloads stop => Receiver.transcript c t = (payloads, stop)) tape
      sent (ending.stop begun) (Receiver.start c) w := ⟨c, _, Receiver.within_between holds, read⟩
  have run calls := expects.run hands Receiver.contents_transcript calls
  refine ⟨fun attempts => Receiver.answers_prefix hands attempts expects rfl, ?_, ?_, ?_, ?_⟩
  · intro calls
    obtain ⟨done, receiver, after, left, ran, balance, -⟩ := run calls
    rw [ran]
    exact ⟨left, balance.symm⟩
  · intro calls d member failed
    rcases (Receiver.Owes.live expects).errors hands Receiver.contents_transcript calls d member _
      failed with stops | ended
    · exact opens stops
    · cases ended
  · intro calls error found
    obtain ⟨done, receiver, after, left, ran, balance, -, stops⟩ := run calls
    rw [ran] at found ⊢
    obtain ⟨rfl, -⟩ := stops error found
    rw [List.append_nil] at balance
    exact balance.symm
  · intro prompt
    obtain ⟨receiver, after, received⟩ := Receiver.receiveAll_of_prompt hands prompt #[] expects rfl
    exact ⟨_, receiver, after, by rw [received, Array.empty_append], opens⟩

def Sink.ofRoom (room : Nat) : Sink Bytes where
  send bytes w :=
    if w.length + bytes.length ≤ room then (.ready (.ok ()), w ++ bytes)
    else (.ready (.error .sendFailed), w ++ bytes.take (room - w.length))
  resume w := (.pending, w)
  close w := (.ready (.ok ()), w)

theorem Sink.takes_ofRoom (room : Nat) : (Sink.ofRoom room).Takes id where
  whole {bytes w after} h := by
    simp only [ofRoom] at h
    split at h
    · cases h
      rfl
    · simp at h
  part {bytes w answer after} h := by
    simp only [ofRoom] at h
    split at h
    · cases h
      exact ⟨bytes, List.prefix_rfl, rfl⟩
    · cases h
      exact ⟨_, List.take_prefix .., rfl⟩
  close w := rfl

namespace Sender

variable {ω : Type} {sink : Sink ω} {taken : ω → Bytes}

/-- A sender may make any calls on a sink that fails or stalls anywhere. The sink ends up with the first
of the frames that were asked for, made at consecutive places of the cipher, and at most a beginning of
the next. All frames of successful calls are there. Once the sink has failed or was given up, or the
sender was closed, the sink takes nothing more and whatever could be sent is refused. The whole frames
that arrive during a call carry the first of its bytes. Receivers with the same cipher get exactly the
messages of the whole frames. -/
theorem cut_at_most_once (takes : sink.Takes taken) (c : CipherState) (requests : List Request) {w : ω}
    (fresh : taken w = []) :
    ∃ handled s after sent next, serve sink requests (start c) w = (handled, s, after) ∧
      handled.map Handled.request = requests ∧
      c.Cut sent next (taken after) ∧
      sent ++ next.toList <+: requests.flatMap Request.payloads ∧
      handled.flatMap Handled.confirmed <+: sent ∧
      (∀ earlier h later, handled = earlier ++ h :: later → h.Final →
        ∀ g ∈ later, taken g.after = taken h.after ∧
          (g.request.Carries → g.answer = .ready (.error .terminated))) ∧
      (∀ h ∈ handled, h.Sound taken c) ∧
      ∀ {ρ : Type} {source : Source ρ} {tape : ρ → Option Tape} {far : ρ} {ending : Ending},
        source.Hands tape → tape far = some ⟨taken after, ending⟩ →
          Receiver.Delivered source tape far c sent := by
  have begins : c.Frames [] (taken w) c := by
    rw [fresh]
    exact .nil
  obtain ⟨handled, s, after, served, ⟨sent, next, cut, asked, kept⟩, sound, final⟩ :=
    serve_left takes begins requests
  rw [List.nil_append] at cut
  have fit : ∀ payload ∈ sent ++ next.toList, payload.length ≤ maxPayloadLength := by
    intro payload member
    obtain ⟨request, -, made⟩ := List.mem_flatMap.1 (asked.subset member)
    exact Request.length_of_mem_payloads made
  have each : handled.map Handled.request = requests := by
    have same := requests_serve sink requests (start c) w
    rwa [served] at same
  exact ⟨handled, s, after, sent, next, served, each, cut, asked, kept, final, sound,
    fun hands holds => cut.delivered fit hands holds⟩

/-- There is room for one frame of two bytes and not for another: the second call fails, and the third
is refused. -/
theorem cut_at_most_once_of_fifty_bytes :
    (Sink.ofRoom 50).Takes id ∧ ∃ handled s after sent next,
      serve (.ofRoom 50) [.send [104, 105], .write [104, 105], .send [7]]
        (start (.start (.zero 32) (.zero 32))) [] = (handled, s, after) ∧
      handled.map Handled.answer = [.ready (.ok ()), .ready (.error (.network .sendFailed)),
        .ready (.error .terminated)] ∧
      (CipherState.start (.zero 32) (.zero 32)).Cut sent next after ∧ after.length = 50 ∧
      Receiver.Delivered Tape.source some ⟨after, .closed⟩ (.start (.zero 32) (.zero 32)) sent := by
  have takes := Sink.takes_ofRoom 50
  obtain ⟨handled, s, after, sent, next, served, -, cut, -, -, -, -, delivered⟩ :=
    cut_at_most_once takes (.start (.zero 32) (.zero 32))
      [.send [104, 105], .write [104, 105], .send [7]] (w := []) rfl
  have fits : ([104, 105] : Bytes).length ≤ maxPayloadLength := by decide
  obtain ⟨wire, middle, first⟩ := (CipherState.start (.zero 32) (.zero 32)).frame_of_length fits
  obtain ⟨more, final, second⟩ := middle.frame_of_length fits
  have size : wire.length = 36 := CipherState.length_of_frame first
  have other : more.length = 36 := CipherState.length_of_frame second
  have pieces : Bytes.chunks maxPayloadLength [104, 105] = [[104, 105]] := by
    rw [Bytes.chunks, List.take_of_length_le (by decide), List.drop_of_length_le (by decide),
      Bytes.chunks]
  have one : call (.ofRoom 50) (.send [104, 105]) (start (.start (.zero 32) (.zero 32))) [] =
      (.ready (.ok ()), start middle, wire) := by
    simp [call, send, sendFrame, start, maxPayloadLength, first, Sink.ofRoom, size]
  have two : call (.ofRoom 50) (.write [104, 105]) (start middle) wire =
      (.ready (.error (.network .sendFailed)), ⟨final, true⟩, wire ++ more.take 14) := by
    simp [write_discard, pieces, sendFrames, sendFrame, start, second, Sink.ofRoom, size, other]
  have three : call (.ofRoom 50) (.send [7]) ⟨final, true⟩ (wire ++ more.take 14) =
      (.ready (.error .terminated), ⟨final, true⟩, wire ++ more.take 14) := by
    simp [call, send, sendFrame, maxPayloadLength]
  have made := served
  rw [serve_cons one, serve_cons two, serve_cons three, serve] at made
  cases made
  exact ⟨takes, _, _, _, sent, next, served, rfl, cut, by simp [size, other],
    delivered Tape.hands_source rfl⟩

end Sender
end NoiseLink
