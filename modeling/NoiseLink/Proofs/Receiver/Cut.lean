import NoiseLink.Proofs.Receiver.Canonical

/-! A receiver whose stream stops in the middle of a frame. It has the frames before, and what it makes of
the broken one is told by how the stream goes on: it waits, or fails because the frame is not whole or
because the stream has failed. There is nothing that it could fail to open. -/
namespace NoiseLink

/-- What stops a receiver that has taken part of a frame, or none of it. -/
def Ending.stop (begun : Bytes) : Ending → Stop Error
  | quiet => .pending
  | closed => .failed (if begun = [] then .streamClosed else .malformedFrame)
  | failing cause => .failed (.network cause)

namespace Receiver

variable {ω : Type} {source : Source ω} {tape : ω → Option Tape}

theorem readBody_short (r : Receiver) (length : Nat) (got more : Bytes)
    (short : (got ++ more).length < length + Aead.tagLength) (ending : Ending) :
    r.readBody Tape.source length got.toArray ⟨more, ending⟩ =
      (match ending with
        | .quiet => .pending
        | .closed => .ready (.error .malformedFrame)
        | .failing cause => .ready (.error (.network cause)),
        { r with stage := .body length (got ++ more).toArray }, ⟨[], ending⟩) := by
  have fits : got.toArray.size ≤ length + Aead.tagLength := by
    rw [List.length_append] at short
    simp only [List.size_toArray]
    omega
  rw [readBody, Tape.gather_eq _ _ _ fits, Tape.rewind, Tape.unit_short _ short]
  cases ending <;> rfl

/-- A receiver opens a header and waits for the rest of its payload. -/
theorem nextFrame_begun {c middle : CipherState} {header : Octets headerLength} {high low : UInt8}
    (opened : c.decrypt header.bytes = (.ok [high, low], middle)) {got : Bytes}
    (short : got.length < Bytes.ofBigEndian [high, low] + Aead.tagLength) (residual : Bytes) :
    (between c residual).nextFrame Tape.source ⟨header.bytes ++ got, .quiet⟩ =
      (.pending, ⟨middle, .body (Bytes.ofBigEndian [high, low]) got.toArray, residual, false⟩,
        ⟨[], .quiet⟩) := by
  have head := Tape.gather_eq headerLength #[] ⟨header.bytes ++ got, .quiet⟩ (Nat.zero_le _)
  rw [Tape.rewind_nil] at head
  have whole := head.trans (Tape.unit_full header ⟨got, .quiet⟩)
  have body := readBody_short ⟨middle, .idle, residual, false⟩ _ [] got short .quiet
  simp only [Stage.idle] at body
  simp only [Receiver.nextFrame, between, readFrame, Stage.idle, whole, opened, body]
  rfl

/-- The stream has ended in the middle of a payload. -/
theorem nextFrame_broken_off (c : CipherState) (length : Nat) {got : Bytes}
    (short : got.length < length + Aead.tagLength) (residual : Bytes) :
    Receiver.nextFrame Tape.source ⟨c, .body length got.toArray, residual, false⟩ ⟨[], .closed⟩ =
      (.ready (.error .malformedFrame), ⟨c, .body length got.toArray, residual, true⟩, ⟨[], .closed⟩) := by
  have body := readBody_short ⟨c, .body length got.toArray, residual, false⟩ length got []
    (by rwa [List.append_nil]) .closed
  rw [List.append_nil] at body
  simp only [Receiver.nextFrame, readFrame, body]
  rfl

/-- A receiver that has less than a frame before it. -/
theorem Taken.nextFrame {c middle : CipherState} {begun : Bytes} {stage : Stage}
    (taken : Taken c begun middle stage) (residual : Bytes) (ending : Ending) :
    ((between c residual).nextFrame Tape.source ⟨begun, ending⟩).1 =
      match ending with
      | .quiet => .pending
      | .closed => if begun = [] then .ready (.ok none) else .ready (.error .malformedFrame)
      | .failing cause => .ready (.error (.network cause)) := by
  have head (t : Tape) := Tape.gather_eq headerLength #[] t (Nat.zero_le _)
  simp only [Tape.rewind_nil] at head
  rw [Receiver.nextFrame, between]
  simp only [Bool.false_eq_true, if_false, readFrame, Stage.idle, head]
  cases taken with
  | header got short =>
    rw [Tape.unit_short got.toList short]
    cases ending with
    | quiet => rfl
    | failing cause => rfl
    | closed =>
      by_cases none : got = #[]
      · subst none
        rfl
      · have some : got.toList ≠ [] := by simpa using none
        simp [none]
  | @body high low middle header got opened short =>
    have whole := Tape.unit_full header ⟨got.toList, ending⟩
    simp only [Tape.rewind] at whole
    have some : header.bytes ++ got.toList ≠ [] := by
      intro none
      have empty := congrArg List.length none
      rw [List.length_append, header.length_bytes] at empty
      simp [headerLength, lengthPrefixLength] at empty
    have broken := congrArg Prod.fst
      (readBody_short ⟨middle, .header #[], residual, false⟩ _ [] got.toList short ending)
    rw [whole, if_neg some]
    simp only [opened]
    generalize readBody Tape.source (Bytes.ofBigEndian [high, low]) #[]
      ⟨middle, .header #[], residual, false⟩ ⟨got.toList, ending⟩ = result at broken ⊢
    obtain ⟨answer, next, rest⟩ := result
    cases ending <;> cases broken <;> rfl

theorem taken_of_prefix {c last : CipherState} {payload frame piece : Bytes}
    (framed : c.frame payload = (.ok frame, last)) (fits : payload.length ≤ maxPayloadLength)
    (begins : piece <+: frame) (part : piece ≠ frame) : ∃ middle stage, Taken c piece middle stage := by
  obtain ⟨header, middle, body, first, second, rfl⟩ := CipherState.frame_ok_iff.1 framed
  have size : header.length = headerLength := by
    rw [CipherState.length_of_encrypt first, Bytes.length_bigEndian]; rfl
  by_cases short : piece.length < headerLength
  · exact ⟨c, _, .header piece.toArray short⟩
  · obtain ⟨got, rfl⟩ : header <+: piece :=
      List.prefix_of_prefix_length_le (List.prefix_append ..) begins (by omega)
    have rest : got <+: body := (List.prefix_append_right_inj header).1 begins
    have missing : got.length < body.length :=
      Nat.lt_of_le_of_ne rest.length_le fun same => part (by rw [rest.eq_of_length same])
    have opened := CipherState.decrypt_ok_iff.2 first
    have back := @Bytes.ofBigEndian_bigEndian lengthPrefixLength _ (Nat.lt_succ_of_le fits)
    obtain ⟨high, low, two⟩ : ∃ high low, Bytes.bigEndian lengthPrefixLength payload.length =
        [high, low] := ⟨_, _, rfl⟩
    rw [two] at opened back
    rw [CipherState.length_of_encrypt second, ← back] at missing
    exact ⟨middle, _, .body ⟨header, size⟩ got.toArray opened missing⟩

theorem Taken.transcript {c middle : CipherState} {begun : Bytes} {stage : Stage}
    (taken : Taken c begun middle stage) (ending : Ending) :
    transcript c ⟨begun, ending⟩ = ([], ending.stop begun) := by
  have broken := taken.nextFrame [] ending
  have received : (start c).receive Tape.source ⟨begun, ending⟩ = _ :=
    receive_of_clear Tape.source (show (between c []).residual = [] from rfl) ⟨begun, ending⟩
  generalize (between c []).nextFrame Tape.source ⟨begun, ending⟩ = result at broken received
  obtain ⟨answer, next, rest⟩ := result
  rw [Receiver.transcript, receiveAll_eq, received]
  cases ending with
  | quiet =>
    cases broken
    rfl
  | failing cause =>
    cases broken
    rfl
  | closed =>
    by_cases none : begun = []
    · simp only [none, if_true] at broken
      cases broken
      simp [Ending.stop, none]
    · simp only [none, if_false] at broken
      cases broken
      simp [Ending.stop, none]

/-- The messages on a tape are those whose frames are whole, and the ending stops their receiver. -/
theorem transcript_frames {c last middle : CipherState} {sent : List Bytes} {wire begun : Bytes}
    {stage : Stage} (frames : c.Frames sent wire last)
    (fit : ∀ payload ∈ sent, payload.length ≤ maxPayloadLength)
    (taken : Taken last begun middle stage) (ending : Ending) :
    transcript c ⟨wire ++ begun, ending⟩ = (sent, ending.stop begun) := by
  induction frames with
  | nil => exact taken.transcript ending
  | @cons c next last payload sent wire tail framed frames ih =>
    obtain ⟨fits, others⟩ := List.forall_mem_cons.1 fit
    have accepted : (between c []).nextFrame Tape.source ⟨wire ++ tail ++ begun, ending⟩ =
        (.ready (.ok (some payload)), between next [], ⟨tail ++ begun, ending⟩) :=
      nextFrame_tape_some_iff.2
        ⟨fits, wire, next, framed, rfl, by rw [Tape.rewind, List.append_assoc]⟩
    rw [transcript_of_message accepted, ih others taken]

variable {content : CipherState → Tape → List Bytes → Stop Error → Prop}

/-- A receiver that has failed reports that, whatever it is asked for. -/
theorem error_of_halted {r next : Receiver} (halted : r.terminated = true) {call : Call} {w after : ω}
    {error : Error} (h : r.attempt source call w = (.ready (.error error), next, after)) :
    error = .terminated := by
  have stays : r.nextFrame source w = (.ready (.error .terminated), r, w) := by
    rw [Receiver.nextFrame, if_pos halted]
  cases call with
  | receive =>
    rw [attempt, receive] at h
    split at h
    · simp at h
    · rw [stays] at h
      cases h
      rfl
  | read size =>
    rw [attempt, read] at h
    split at h
    · simp at h
    · split at h
      · simp at h
      · split at h <;> simp_all

/-- The only errors that a receiver reports are what stops it, and then that it has failed. -/
theorem Owes.errors (hands : source.Hands tape) (agrees : Contents content) {stop : Stop Error}
    (calls : List Call) {owed : Bytes} {r : Receiver} {w : ω} (owes : Owes content tape stop owed r w) :
    ∀ d ∈ (run source calls r w).1, ∀ error, d.answer = .error error →
      stop = .failed error ∨ error = .terminated := by
  induction calls generalizing owed r w with
  | nil => exact nofun
  | cons call calls ih =>
    cases owes with
    | live expects =>
      have served := expects.attempt hands agrees call
      generalize made : r.attempt source call w = result at served
      cases served with
      | waits kept =>
        rw [run_cons_of_pending made]
        exact ih (.live kept)
      | hands kept =>
        rw [run_cons_of_ready made]
        exact List.forall_mem_cons.2 ⟨nofun, ih (.live kept)⟩
      | ended kept _ _ _ closed =>
        rw [run_cons_of_ready made]
        refine List.forall_mem_cons.2 ⟨fun error reported => .inl ?_, ih (.live kept)⟩
        cases call with
        | receive =>
          cases reported
          exact closed
        | read size => cases reported
      | failed _ reason _ halted clear =>
        rw [run_cons_of_ready made]
        refine List.forall_mem_cons.2 ⟨fun error reported => .inl ?_, ih (.halted halted clear)⟩
        cases reported
        exact reason
    | halted halted clear =>
      obtain ⟨answer, made, -⟩ := attempt_halted source halted clear call w
      rw [run_cons_of_ready made]
      refine List.forall_mem_cons.2 ⟨fun error reported => .inr ?_, ih (.halted halted clear)⟩
      cases reported
      exact error_of_halted halted made

theorem answers_halted {r : Receiver} (halted : r.terminated = true) (clear : r.residual = [])
    (attempts : Nat) (w : ω) :
    answers source attempts r w = .replicate attempts (.error .terminated) := by
  induction attempts with
  | zero => rfl
  | succ attempts ih =>
    have received := receive_of_clear source clear w
    rw [Receiver.nextFrame, if_pos halted] at received
    rw [answers_of_ready received, ih, List.replicate_succ]

theorem answers_prefix (hands : source.Hands tape) {payloads : List Bytes} {stop : Stop Error}
    (attempts : Nat) {r : Receiver} {w : ω}
    (expects : Expects (fun c t payloads stop => transcript c t = (payloads, stop)) tape payloads stop
      r w) (clear : r.residual = []) :
    (answers source attempts r w).filterMap Except.toOption <+: payloads := by
  induction attempts generalizing payloads r w with
  | zero => exact List.nil_prefix
  | succ attempts ih =>
    have taking := expects.nextFrame hands contents_transcript clear
    have received := receive_of_clear source clear w
    generalize r.nextFrame source w = result at taking received
    cases taking with
    | waits kept empty =>
      rw [answers_of_pending received]
      exact ih kept empty
    | message first kept empty =>
      rw [answers_of_ready received, first]
      exact List.cons_prefix_cons.2 ⟨rfl, ih kept empty⟩
    | ended first _ kept empty =>
      rw [answers_of_ready received, first]
      exact ih kept empty
    | @failed error next after _ _ _ halted empty =>
      rw [answers_of_ready received, answers_halted halted empty, List.filterMap_cons_none rfl,
        List.filterMap_replicate_of_none rfl]
      exact List.nil_prefix

theorem receiveAll_of_prompt (hands : source.Hands tape) (prompt : source.Prompt tape)
    {payloads : List Bytes} {stop : Stop Error} (messages : Array Bytes) {r : Receiver} {w : ω}
    (expects : Expects (fun c t payloads stop => transcript c t = (payloads, stop)) tape payloads stop
      r w) (clear : r.residual = []) :
    ∃ receiver after,
      r.receiveAll source messages w = (messages ++ payloads.toArray, stop, receiver, after) := by
  fun_induction Receiver.receiveAll source messages r w generalizing payloads with
  | case1 messages r w message next after answer ih =>
    have served := expects.receive hands contents_transcript
    rw [answer] at served
    cases served with
    | hands kept _ only =>
      obtain ⟨empty, rfl⟩ := only rfl clear
      obtain ⟨receiver, final, received⟩ := ih kept empty
      exact ⟨receiver, final, by rw [received]; simp⟩
  | case2 messages r w error next after answer =>
    -- what a call owes does not count empty payloads, so the frame itself is looked at
    have taking := expects.nextFrame hands contents_transcript clear
    rw [receive_of_clear source clear] at answer
    generalize r.nextFrame source w = result at taking answer
    cases taking with
    | waits => cases answer
    | message => cases answer
    | ended first closed =>
      cases answer
      exact ⟨next, after, by rw [first, closed, Array.append_empty]⟩
    | failed first reason =>
      cases answer
      exact ⟨next, after, by rw [first, reason, Array.append_empty]⟩
  | case3 messages r w next after answer =>
    have served := expects.receive hands contents_transcript
    rw [answer] at served
    cases served with
    | waits kept _ only paused =>
      obtain ⟨-, rfl⟩ := only rfl
      obtain ⟨c, t, ⟨-, taken, rest, place, holds, rfl⟩, reads⟩ := kept
      have silent := prompt _ _ paused
      rw [paused.holds hands, silent] at holds
      cases holds
      rw [Tape.rewind, List.append_nil, place.transcript] at reads
      cases reads
      exact ⟨next, after, by simp [Ending.stop]⟩

end Receiver
end NoiseLink
