import NoiseLink.Proofs.Receiver.Cut
import NoiseLink.Proofs.Stream.Line

/-! A receiver on a line to a sender with the same cipher. What lies on the tape is the frames of the
payloads that are still owed, and the cipher behind the last of them is the one that the sender has come
to. Sending adds frames at the end, in whatever place of a frame the receiver is interrupted. -/
namespace NoiseLink

variable {ω : Type} {sink : Sink ω} {source : Source ω} {tape : ω → Option Tape}

namespace Sender

theorem sendFrame_ok {s next : Sender} {payload : Bytes} {w after : ω}
    (h : s.sendFrame sink payload w = (.ready (.ok ()), next, after)) :
    s.terminated = false ∧ next.terminated = false ∧ ∃ wire,
      s.cipher.frame payload = (.ok wire, next.cipher) ∧
        sink.send wire w = (.ready (.ok ()), after) := by
  rw [sendFrame] at h
  split at h
  · simp at h
  · rename_i alive
    split at h
    · simp at h
    · rename_i wire cipher framed
      split at h
      · rename_i later sent
        cases h
        exact ⟨by simpa using alive, rfl, wire, framed, sent⟩
      · simp at h
      · simp at h

theorem sendFrames_singleton {s next : Sender} {payload : Bytes} {w after : ω}
    (h : s.sendFrame sink payload w = (.ready (.ok ()), next, after)) :
    sendFrames sink [payload] s w = (.ready (.ok ()), next, after) := by
  rw [sendFrames, h]
  rfl

theorem alive_of_sendFrames {payload : Bytes} {payloads : List Bytes} {s next : Sender} {w after : ω}
    (h : sendFrames sink (payload :: payloads) s w = (.ready (.ok ()), next, after)) :
    s.terminated = false := by
  rw [sendFrames] at h
  split at h
  · rename_i middle between sent
    exact (sendFrame_ok sent).1
  · rename_i other
    exact (other _ _ h).elim

/-- Frames that a sender got rid of follow on the tape. -/
theorem sendFrames_ok (line : Line sink source tape) {payloads : List Bytes} {s next : Sender}
    {w after : ω} {t : Tape} (holds : tape w = some t) (quiet : t.ending = .quiet)
    (h : sendFrames sink payloads s w = (.ready (.ok ()), next, after)) :
    next.terminated = s.terminated ∧ ∃ wire, s.cipher.Frames payloads wire next.cipher ∧
      tape after = some (t.follow wire .quiet) := by
  induction payloads generalizing s w t with
  | nil =>
    cases h
    refine ⟨rfl, [], .nil, ?_⟩
    rw [holds, Tape.follow, List.append_nil, ← quiet]
  | cons payload payloads ih =>
    rw [sendFrames] at h
    split at h
    · rename_i middle between sent
      obtain ⟨alive, live, wire, framed, taken⟩ := sendFrame_ok sent
      obtain ⟨same, rest, frames, left⟩ := ih (line.sent holds quiet taken) rfl h
      refine ⟨by rw [same, live, alive], wire ++ rest, .cons framed frames, ?_⟩
      rw [left, Tape.follow_follow]
    · rename_i other
      exact (other _ _ h).elim

end Sender

theorem Bytes.length_of_mem_chunks {size : Nat} (positive : 0 < size) {bytes piece : Bytes}
    (member : piece ∈ chunks size bytes) : piece.length ≤ size := by
  fun_induction chunks size bytes with
  | case1 => simp at member
  | case2 byte rest ih =>
    rcases List.mem_cons.1 member with rfl | later
    · simp only [List.length_cons, List.length_take]
      omega
    · exact ih later

namespace Receiver

/-- The tape holds the frames of some payloads, which lead to the cipher `last`, and ends after them if
the sender has closed the line. -/
def honest (last : CipherState) (closed : Bool) (c : CipherState) (t : Tape) (payloads : List Bytes)
    (stop : Stop Error) : Prop :=
  c.Frames payloads t.bytes last ∧ (∀ payload ∈ payloads, payload.length ≤ maxPayloadLength) ∧
    t.ending = (if closed then .closed else .quiet) ∧
    stop = if closed then .failed .streamClosed else .pending

/-- The first frame of an honest tape is accepted. -/
theorem honest_cons {last c : CipherState} {closed : Bool} {t : Tape} {payload : Bytes}
    {payloads : List Bytes} {stop : Stop Error} (h : honest last closed c t (payload :: payloads) stop) :
    ∃ next rest, (between c []).nextFrame Tape.source t =
        (.ready (.ok (some payload)), between next [], rest) ∧
      honest last closed next rest payloads stop := by
  obtain ⟨frames, fit, ending, stops⟩ := h
  obtain ⟨bytes, final⟩ := t
  obtain ⟨fits, others⟩ := List.forall_mem_cons.1 fit
  cases frames with
  | @cons _ next _ _ _ wire tail framed frames =>
    refine ⟨next, ⟨tail, final⟩, nextFrame_tape_some_iff.2 ⟨fits, wire, next, framed, rfl, rfl⟩, ?_⟩
    exact ⟨frames, others, ending, stops⟩

theorem honest_nil {last c : CipherState} {closed : Bool} {t : Tape} {stop : Stop Error}
    (h : honest last closed c t [] stop) :
    ((between c []).nextFrame Tape.source t).1 = .pending ∨
      ((between c []).nextFrame Tape.source t).1 = .ready (.ok none) := by
  obtain ⟨frames, -, ending, -⟩ := h
  obtain ⟨bytes, final⟩ := t
  cases frames with
  | nil =>
    cases closed with
    | true =>
      cases ending
      exact .inr (by rw [nextFrame_tape_none_iff.2 ⟨rfl, rfl, rfl⟩])
    | false =>
      cases ending
      exact .inl (nextFrame_tape_quiet last [])

theorem contents_honest (last : CipherState) (closed : Bool) : Contents (honest last closed) where
  message {c t payloads stop payload next rest} contents found := by
    cases payloads with
    | nil =>
      rcases honest_nil contents with waits | ended
      · simp [found] at waits
      · simp [found] at ended
    | cons first payloads =>
      obtain ⟨middle, left, accepted, remaining⟩ := honest_cons contents
      rw [found] at accepted
      cases accepted
      exact ⟨payloads, rfl, remaining⟩
  ended {c payloads stop} contents := by
    cases payloads with
    | nil =>
      obtain ⟨-, -, ending, stops⟩ := contents
      cases closed with
      | true => exact ⟨rfl, stops⟩
      | false => cases ending
    | cons first payloads =>
      obtain ⟨middle, left, accepted, -⟩ := honest_cons contents
      rw [nextFrame_tape_none_iff.2 ⟨rfl, rfl, rfl⟩] at accepted
      simp at accepted
  failed {c t payloads stop error next rest} contents found := by
    cases payloads with
    | nil =>
      rcases honest_nil contents with waits | ended
      · simp [found] at waits
      · simp [found] at ended
    | cons first payloads =>
      obtain ⟨middle, left, accepted, -⟩ := honest_cons contents
      simp [found] at accepted

/-- A receiver keeps its place when the tape grows at its end. -/
theorem Within.follow {c : CipherState} {t : Tape} {r : Receiver} {w later : ω} {more : Bytes}
    {ending : Ending} (within : Within tape c t r w)
    (grows : ∀ rest : Tape, tape w = some rest → rest.ending = t.ending →
      tape later = some (rest.follow more ending)) :
    Within tape c (t.follow more ending) r later := by
  obtain ⟨alive, taken, left, place, holds, rfl⟩ := within
  exact ⟨alive, taken, _, place, grows left holds rfl, (Tape.follow_rewind ..).symm⟩

theorem Expects.holds {last : CipherState} {closed : Bool} {payloads : List Bytes} {stop : Stop Error}
    {r : Receiver} {w : ω} (expects : Expects (honest last closed) tape payloads stop r w) :
    ∃ t, tape w = some t ∧ t.ending = if closed then .closed else .quiet := by
  obtain ⟨start, t, ⟨-, taken, rest, -, holds, rfl⟩, -, -, ending, -⟩ := expects
  exact ⟨rest, holds, ending⟩

/-- What the sender sends is owed after all that was owed before. -/
theorem Expects.sent {c last : CipherState} {payloads more : List Bytes} {wire : Bytes}
    {stop : Stop Error} {r : Receiver} {w later : ω}
    (expects : Expects (honest c false) tape payloads stop r w) (frames : c.Frames more wire last)
    (fit : ∀ payload ∈ more, payload.length ≤ maxPayloadLength)
    (grows : ∀ t, tape w = some t → t.ending = .quiet → tape later = some (t.follow wire .quiet)) :
    Expects (honest last false) tape (payloads ++ more) stop r later := by
  obtain ⟨start, t, within, sent, fits, ending, stops⟩ := expects
  refine ⟨start, t.follow wire .quiet, within.follow fun rest holds same => ?_, ?_⟩
  · exact grows rest holds (same.trans ending)
  · exact ⟨sent.append frames, List.forall_mem_append.2 ⟨fits, fit⟩, rfl, stops⟩

theorem Expects.closed {last : CipherState} {shut : Bool} {payloads : List Bytes} {stop : Stop Error}
    {r : Receiver} {w later : ω} (expects : Expects (honest last shut) tape payloads stop r w)
    (grows : ∀ t, tape w = some t → (∀ cause, t.ending ≠ .failing cause) →
      tape later = some (t.follow [] .closed)) :
    Expects (honest last true) tape payloads (.failed .streamClosed) r later := by
  obtain ⟨start, t, within, sent, fits, ending, -⟩ := expects
  refine ⟨start, t.follow [] .closed, within.follow fun rest holds same => ?_, ?_, fits, rfl, rfl⟩
  · refine grows rest holds fun cause broken => ?_
    rw [broken] at same
    rw [← same] at ending
    cases shut <;> cases ending
  · rw [Tape.follow, List.append_nil]
    exact sent

/-- Once the sender has closed the line, a stream that speaks promptly makes nobody wait. -/
theorem Expects.not_paused (hands : source.Hands tape) (prompt : source.Prompt tape)
    {last : CipherState} {payloads : List Bytes} {stop : Stop Error} {r : Receiver} {w : ω}
    (expects : Expects (honest last true) tape payloads stop r w) {t : Tape} :
    ¬ source.Paused tape w t := by
  intro paused
  obtain ⟨left, holds, ended⟩ := expects.holds
  have same := paused.holds hands
  rw [prompt w t paused, holds] at same
  cases same
  cases ended

theorem Expects.readAll (hands : source.Hands tape) (prompt : source.Prompt tape)
    {last : CipherState} {size : Nat} (positive : 0 < size) {payloads : List Bytes} {r : Receiver}
    {w : ω} (pieces : Array Bytes)
    (expects : Expects (honest last true) tape payloads (.failed .streamClosed) r w) :
    ∃ more receiver after,
      r.readAll source size pieces w = (pieces ++ more, .ended, receiver, after) ∧
      more.toList.flatten = r.residual ++ payloads.flatten := by
  fun_induction Receiver.readAll source size pieces r w generalizing payloads with
  | case1 pieces r w byte bytes next after answer ih =>
    have served := expects.read hands (contents_honest ..) size
    rw [answer] at served
    cases served with
    | hands kept same =>
      obtain ⟨more, receiver, final, read, rest⟩ := ih kept
      refine ⟨#[byte :: bytes] ++ more, receiver, final, ?_, ?_⟩
      · rw [read]
        simp
      · rw [same, ← rest]
        simp
  | case2 pieces r w next after answer =>
    have served := expects.read hands (contents_honest ..) size
    rw [answer] at served
    cases served with
    | hands _ _ _ silent => simp [Call.stop, Nat.ne_of_gt positive] at silent
    | ended _ empty => exact ⟨#[], next, after, by simp, by rw [empty]; rfl⟩
  | case3 pieces r w error next after answer =>
    have served := expects.read hands (contents_honest ..) size
    rw [answer] at served
    cases served with
    | failed _ reason broken =>
      cases reason
      exact absurd rfl broken
  | case4 pieces r w next after answer =>
    have served := expects.read hands (contents_honest ..) size
    rw [answer] at served
    cases served with
    | waits kept _ _ paused => exact absurd paused (kept.not_paused hands prompt)

/-- A stream that speaks promptly brings all messages that are owed, and then what stops the receiver. -/
theorem Expects.receiveAll (hands : source.Hands tape) (prompt : source.Prompt tape)
    {last : CipherState} {closed : Bool} {payloads : List Bytes} {stop : Stop Error} {r : Receiver}
    {w : ω} (messages : Array Bytes)
    (expects : Expects (honest last closed) tape payloads stop r w) (clear : r.residual = []) :
    ∃ receiver after,
      r.receiveAll source messages w = (messages ++ payloads.toArray, stop, receiver, after) := by
  obtain ⟨c, t, within, frames, fit, ending, stops⟩ := expects
  refine receiveAll_of_prompt hands prompt messages ⟨c, t, within, ?_⟩ clear
  have read := transcript_frames frames fit (.header #[] (by decide)) t.ending
  rw [List.append_nil] at read
  refine read.trans ?_
  rw [ending, stops]
  cases closed <;> rfl

end Receiver
end NoiseLink
