import NoiseLink.Proofs.Sender.Emission
import NoiseLink.Proofs.Sender.Faults

/-! Calls that a sender refuses. A message that does not fit into a frame, and anything to be sent once the
half has come to its end, is turned down before the sink is asked for anything and before the cipher is
touched. So a run of calls and the same run without the refused ones cannot be told apart afterwards. -/
namespace NoiseLink

variable {ω α : Type} {sink : Sink ω}

inductive Sink.Operation where
  | send (bytes : Bytes)
  | resume
  | close
deriving DecidableEq

/-- A sink that lists what it is asked for, in order, beside the world in which it does it. -/
def Sink.recorded (sink : Sink ω) : Sink (ω × List Operation) where
  send bytes w := ((sink.send bytes w.1).1, (sink.send bytes w.1).2, w.2 ++ [.send bytes])
  resume w := ((sink.resume w.1).1, (sink.resume w.1).2, w.2 ++ [.resume])
  close w := ((sink.close w.1).1, (sink.close w.1).2, w.2 ++ [.close])

def Poll.refuses : Poll (Except Error α) → Bool
  | ready (.error (.messageTooLarge _)) | ready (.error .terminated) => true
  | _ => false

namespace Sender

def Handled.refused (h : Handled ω) : Bool := h.answer.refuses

/-- A sender that has come to its end does not touch its sink. -/
theorem sendFrame_terminated {s : Sender} (ended : s.terminated = true) (payload : Bytes) (w : ω) :
    s.sendFrame sink payload w = (.ready (.error .terminated), s, w) := by
  simp [sendFrame, ended]

/-- One that has not may fail with its sink, but refuses nothing that fits into a frame. -/
theorem sendFrame_accepts (sink : Sink ω) {s : Sender} (alive : s.terminated = false) {payload : Bytes}
    (fits : payload.length ≤ maxPayloadLength) (w : ω) :
    (s.sendFrame sink payload w).1.refuses = false := by
  obtain ⟨frame, next, framed⟩ := s.cipher.frame_of_length fits
  simp only [sendFrame, alive, Bool.false_eq_true, if_false, framed]
  split <;> rfl

/-- A call that has begun to send is not refused any more. -/
theorem sendFrames_accepts (sink : Sink ω) {s : Sender} (alive : s.terminated = false)
    {payloads : List Bytes} (fit : ∀ payload ∈ payloads, payload.length ≤ maxPayloadLength) (w : ω) :
    (sendFrames sink payloads s w).1.refuses = false := by
  induction payloads generalizing s w with
  | nil => rfl
  | cons payload payloads ih =>
    obtain ⟨fits, others⟩ := List.forall_mem_cons.1 fit
    rw [sendFrames]
    split
    · rename_i next after sent
      have live : next.terminated = false := (sendFrame_ok sent).2.1
      exact ih live others after
    · exact sendFrame_accepts sink alive fits w

theorem write_accepts (sink : Sink ω) {s : Sender} (alive : s.terminated = false) (bytes : Bytes) (w : ω) :
    (sendFrames sink (Bytes.chunks maxPayloadLength bytes) s w).1.refuses = false :=
  sendFrames_accepts sink alive (fun _ => Bytes.length_of_mem_chunks (by decide)) w

theorem sendFrames_terminated {s : Sender} (ended : s.terminated = true) (payloads : List Bytes) (w : ω) :
    sendFrames sink payloads s w =
      (if payloads = [] then .ready (.ok ()) else .ready (.error .terminated), s, w) := by
  cases payloads with
  | nil => rfl
  | cons payload payloads => simp [sendFrames, sendFrame_terminated ended]

theorem close_accepts (sink : Sink ω) (s : Sender) (w : ω) : (s.close sink w).1.refuses = false := by
  simp only [close]
  split <;> rfl

/-- A refused call leaves the sender and the world as they are. -/
theorem call_refused {request : Request} {s next : Sender} {w after : ω}
    {answer : Poll (Except Error Unit)} (called : s.call sink request w = (answer, next, after))
    (refused : answer.refuses = true) : next = s ∧ after = w := by
  cases request with
  | send message =>
    rw [call, send] at called
    split at called
    · cases called
      exact ⟨rfl, rfl⟩
    · rename_i fits
      cases ended : s.terminated with
      | true =>
        rw [sendFrame_terminated ended] at called
        cases called
        exact ⟨rfl, rfl⟩
      | false =>
        have accepted := sendFrame_accepts sink ended (Nat.le_of_not_lt fits) w
        simp [called, refused] at accepted
  | write bytes =>
    rw [write_discard] at called
    cases ended : s.terminated with
    | true =>
      rw [sendFrames_terminated ended] at called
      cases called
      exact ⟨rfl, rfl⟩
    | false =>
      have accepted := write_accepts sink ended bytes w
      simp [called, refused] at accepted
  | close =>
    have accepted := close_accepts sink s w
    rw [call] at called
    simp [called, refused] at accepted

/-- A message is too large if it does not fit into a frame, whether the sender has come to its end or not. -/
theorem send_tooLarge_iff {s : Sender} {message : Bytes} {w : ω} {length : Nat} :
    (s.send sink message w).1 = .ready (.error (.messageTooLarge length)) ↔
      maxPayloadLength < message.length ∧ length = message.length := by
  rw [send]
  split
  · rename_i long
    simp [long, eq_comm]
  · rename_i fits
    have never : (s.sendFrame sink message w).1 ≠ .ready (.error (.messageTooLarge length)) := by
      intro large
      cases ended : s.terminated with
      | true => simp [sendFrame_terminated ended] at large
      | false =>
        have accepted := sendFrame_accepts sink ended (Nat.le_of_not_lt fits) w
        simp [large, Poll.refuses] at accepted
    simp only [never, false_iff]
    omega

/-- A write is refused for the end of the sender alone, so before its first frame. -/
theorem write_terminated_iff {s : Sender} {bytes : Bytes} {w : ω} :
    (s.write sink bytes w).1 = .ready (.error .terminated) ↔ s.terminated = true ∧ bytes ≠ [] := by
  have answer : (s.write sink bytes w).1 = .ready (.error .terminated) ↔
      (sendFrames sink (Bytes.chunks maxPayloadLength bytes) s w).1 = .ready (.error .terminated) := by
    rw [write]
    split <;> rename_i sent <;> simp [sent]
  rw [answer]
  cases ended : s.terminated with
  | true =>
    rw [sendFrames_terminated ended]
    cases bytes <;> simp [Bytes.chunks]
  | false =>
    have accepted := write_accepts sink ended bytes w
    constructor
    · intro refused
      simp [refused, Poll.refuses] at accepted
    · rintro ⟨wrong, -⟩
      cases wrong

/-- Without the calls that it refused, a run of calls is the same run. -/
theorem serve_others (sink : Sink ω) (requests : List Request) (s : Sender) (w : ω) :
    let run := serve sink requests s w
    let others := run.1.filter (!·.refused)
    serve sink (others.map Handled.request) s w = (others, run.2) := by
  induction requests generalizing s w with
  | nil => rfl
  | cons request requests ih =>
    rcases called : s.call sink request w with ⟨answer, next, after⟩
    have rest := ih next after
    rw [serve_cons called]
    cases refused : answer.refuses with
    | true =>
      obtain ⟨rfl, rfl⟩ := call_refused called refused
      simpa [Handled.refused, refused] using rest
    | false =>
      simp only [Handled.refused] at rest ⊢
      simp [serve_cons called, rest, refused]

theorem serve_refused (sink : Sink ω) (requests : List Request) (s : Sender) (w : ω) :
    ∀ h ∈ (serve sink requests s w).1, h.refused = true → h.after = h.before := by
  induction requests generalizing s w with
  | nil => simp [serve]
  | cons request requests ih =>
    rcases called : s.call sink request w with ⟨answer, next, after⟩
    rw [serve_cons called]
    simp only [List.forall_mem_cons]
    exact ⟨fun refused => (call_refused called refused).2, ih next after⟩

/-- Refused calls leave no trace. Whatever state a sender is in and whatever its sink does, a run of calls
without those that were refused asks the sink for the same operations with the same bytes, gives the same
answers and comes to the same end; and while a call is refused, the sink is asked for nothing. A message is
refused as too large in every state if it does not fit into a frame, with its length. A write is refused
only by a sender that had come to its end before, so before its first frame. -/
theorem refusals_leave_no_trace (sink : Sink ω) (s : Sender) (w : ω × List Sink.Operation) :
    (∀ requests,
      let run := serve sink.recorded requests s w
      let others := run.1.filter (!·.refused)
      serve sink.recorded (others.map Handled.request) s w = (others, run.2) ∧
        ∀ h ∈ run.1, h.refused = true → h.after = h.before) ∧
    (∀ message length,
      (s.send sink.recorded message w).1 = .ready (.error (.messageTooLarge length)) ↔
        maxPayloadLength < message.length ∧ length = message.length) ∧
    ∀ bytes,
      ((s.write sink.recorded bytes w).1 = .ready (.error .terminated) ↔
        s.terminated = true ∧ bytes ≠ []) ∧
      ∀ written, (s.write sink.recorded bytes w).1 = .ready (.ok written) → written = bytes.length := by
  refine ⟨fun requests => ⟨?_, ?_⟩, ?_, ?_⟩
  · exact serve_others sink.recorded requests s w
  · exact serve_refused sink.recorded requests s w
  · intro message length
    exact send_tooLarge_iff
  · intro bytes
    exact ⟨write_terminated_iff, fun written => length_of_write⟩

/-- A message that is too large, one that fits, the end, and a write behind it: what is left is the message
and the end, and the sink has seen nothing else. -/
theorem refusals_leave_no_trace_of_four_calls :
    let c := CipherState.start (.zero 32) (.zero 32)
    ∃ long : Bytes, long.length = 65536 ∧
      let run := serve recorder.recorded [.send long, .send [7], .close, .write [1, 2]] (start c) ([], [])
      run.1.map Handled.answer = [.ready (.error (.messageTooLarge 65536)), .ready (.ok ()),
        .ready (.ok ()), .ready (.error .terminated)] ∧
      (serve recorder.recorded [.send [7], .close] (start c) ([], [])).2 = run.2 ∧
      ∃ frame, run.2.2 = (frame, [.send frame, .close]) := by
  intro c
  obtain ⟨long, size⟩ : ∃ long : Bytes, long.length = 65536 := ⟨.replicate 65536 0, List.length_replicate⟩
  refine ⟨long, size, ?_⟩
  have fits : ([7] : Bytes).length ≤ maxPayloadLength := by decide
  obtain ⟨frame, next, framed⟩ := c.frame_of_length fits
  have large : (start c).call recorder.recorded (.send long) ([], []) =
      (.ready (.error (.messageTooLarge 65536)), start c, [], []) := by
    simp [call, send, size, maxPayloadLength]
  have sent : (start c).call recorder.recorded (.send [7]) ([], []) =
      (.ready (.ok ()), start next, frame, [.send frame]) :=
    send_of_taken fits framed rfl
  have closed : (start next).call recorder.recorded .close (frame, [.send frame]) =
      (.ready (.ok ()), ⟨next, true⟩, frame, [.send frame, .close]) := rfl
  have late : (⟨next, true⟩ : Sender).call recorder.recorded (.write [1, 2]) (frame, [.send frame, .close]) =
      (.ready (.error .terminated), ⟨next, true⟩, frame, [.send frame, .close]) := by
    rw [write_discard, sendFrames_terminated rfl]
    simp [Bytes.chunks]
  have ran : serve recorder.recorded [.send long, .send [7], .close, .write [1, 2]] (start c) ([], []) =
      ([⟨.send long, ([], []), .ready (.error (.messageTooLarge 65536)), ([], [])⟩,
        ⟨.send [7], ([], []), .ready (.ok ()), (frame, [.send frame])⟩,
        ⟨.close, (frame, [.send frame]), .ready (.ok ()), (frame, [.send frame, .close])⟩,
        ⟨.write [1, 2], (frame, [.send frame, .close]), .ready (.error .terminated),
          (frame, [.send frame, .close])⟩],
        ⟨next, true⟩, frame, [.send frame, .close]) := by
    simp only [serve_cons large, serve_cons sent, serve_cons closed, serve_cons late]
    rfl
  have same := ((refusals_leave_no_trace recorder (start c) ([], [])).1
    [.send long, .send [7], .close, .write [1, 2]]).1
  rw [ran] at same ⊢
  simp only [List.filter, Handled.refused, Poll.refuses, Bool.not_true, Bool.not_false] at same
  have last := congrArg Prod.snd same
  exact ⟨rfl, last, frame, rfl⟩

end Sender
end NoiseLink
