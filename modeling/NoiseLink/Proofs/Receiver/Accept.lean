import NoiseLink.Proofs.Cipher.Frames
import NoiseLink.Proofs.Stream.Tape
import NoiseLink.Drain

/-! What a receiver between two frames makes of a tape. It accepts a payload exactly when the tape
begins with the frame that its own cipher would make of that payload. -/
namespace NoiseLink.Receiver

variable {ω : Type} {source : Source ω}

def between (c : CipherState) (residual : Bytes) : Receiver := ⟨c, .idle, residual, false⟩

/-- Only an error makes a difference between reading a frame and taking the next one. -/
theorem nextFrame_ok_iff {r next : Receiver} {w after : ω} {frame : Option Bytes}
    (alive : r.terminated = false) :
    r.nextFrame source w = (.ready (.ok frame), next, after) ↔
      r.readFrame source w = (.ready (.ok frame), next, after) := by
  rw [nextFrame, alive]
  simp only [Bool.false_eq_true, if_false]
  split
  · rename_i error r' w' failed
    simp [failed]
  · exact Iff.rfl

theorem readBody_tape_some_iff {r next : Receiver} {length : Nat} {payload : Bytes} {t rest : Tape} :
    r.readBody Tape.source length #[] t = (.ready (.ok (some payload)), next, rest) ↔
      payload.length = length ∧ ∃ body last, r.cipher.encrypt payload = (.ok body, last) ∧
        next = { r with cipher := last, stage := .idle } ∧ t = rest.rewind body := by
  rw [readBody, Tape.gather_eq _ #[] t (Nat.zero_le _), Tape.rewind_nil]
  constructor
  · intro h
    split at h
    · simp at h
    · simp at h
    · simp at h
    · rename_i unit left gathered
      split at h
      · rename_i found last opened
        simp only [Prod.mk.injEq, Poll.ready.injEq, Except.ok.injEq, Option.some.injEq] at h
        obtain ⟨rfl, rfl, rfl⟩ := h
        have closed := CipherState.decrypt_ok_iff.1 opened
        have size := CipherState.length_of_encrypt closed
        rw [unit.length_bytes] at size
        exact ⟨by omega, unit.bytes, last, closed, rfl, Tape.eq_rewind_of_unit gathered⟩
      · simp at h
  · rintro ⟨rfl, body, last, closed, rfl, rfl⟩
    have size := CipherState.length_of_encrypt closed
    have whole := Tape.unit_full ⟨body, size⟩ rest
    simp only at whole
    rw [whole]
    simp only [CipherState.decrypt_ok_iff.2 closed]

/-- What is accepted from a tape is the frame of the payload, made under the same cipher. -/
theorem nextFrame_tape_some_iff {c : CipherState} {residual payload : Bytes} {t rest : Tape}
    {next : Receiver} :
    (between c residual).nextFrame Tape.source t = (.ready (.ok (some payload)), next, rest) ↔
      payload.length ≤ maxPayloadLength ∧ ∃ wire last, c.frame payload = (.ok wire, last) ∧
        next = between last residual ∧ t = rest.rewind wire := by
  rw [nextFrame_ok_iff rfl, between, readFrame]
  simp only [Stage.idle, Tape.gather_eq headerLength #[] t (Nat.zero_le _), Tape.rewind_nil]
  constructor
  · intro h
    split at h
    · simp at h
    · simp at h
    · split at h <;> simp at h
    · rename_i header left gathered
      split at h
      · rename_i high low middle opened
        obtain ⟨size, body, last, second, rfl, rfl⟩ := readBody_tape_some_iff.1 h
        have first := CipherState.decrypt_ok_iff.1 opened
        rw [← Bytes.bigEndian_ofBigEndian_two, ← size] at first
        refine ⟨size ▸ Bytes.ofBigEndian_two_le high low, header.bytes ++ body, last,
          CipherState.frame_ok_iff.2 ⟨header.bytes, middle, body, first, second, rfl⟩, rfl, ?_⟩
        rw [Tape.eq_rewind_of_unit gathered, Tape.rewind_rewind]
      · simp at h
      · simp at h
  · rintro ⟨fits, wire, last, framed, rfl, rfl⟩
    obtain ⟨header, middle, body, first, second, rfl⟩ := CipherState.frame_ok_iff.1 framed
    have size : header.length = headerLength := by
      rw [CipherState.length_of_encrypt first, Bytes.length_bigEndian]; rfl
    have whole := Tape.unit_full ⟨header, size⟩ (rest.rewind body)
    simp only [Tape.rewind_rewind] at whole
    rw [whole]
    have opened := CipherState.decrypt_ok_iff.2 first
    have back := @Bytes.ofBigEndian_bigEndian lengthPrefixLength _ (Nat.lt_succ_of_le fits)
    obtain ⟨high, low, two⟩ : ∃ high low, Bytes.bigEndian lengthPrefixLength payload.length =
        [high, low] := ⟨_, _, rfl⟩
    rw [two] at opened back
    simp only [opened]
    exact readBody_tape_some_iff.2 ⟨back.symm, body, last, second, rfl, rfl⟩

theorem readBody_ne_none (r : Receiver) (length : Nat) (got : Array UInt8) (w : ω) :
    (r.readBody source length got w).1 ≠ .ready (.ok none) := by
  rw [readBody]
  split
  · simp
  · simp
  · simp
  · split <;> simp

/-- The end of the stream is found exactly where it lies between two frames. -/
theorem nextFrame_tape_none_iff {c : CipherState} {residual : Bytes} {t rest : Tape}
    {next : Receiver} :
    (between c residual).nextFrame Tape.source t = (.ready (.ok none), next, rest) ↔
      t = ⟨[], .closed⟩ ∧ rest = t ∧ next = between c residual := by
  rw [nextFrame_ok_iff rfl, between, readFrame]
  simp only [Stage.idle, Tape.gather_eq headerLength #[] t (Nat.zero_le _), Tape.rewind_nil]
  constructor
  · intro h
    split at h
    · simp at h
    · simp at h
    · rename_i got left gathered
      obtain ⟨rfl, rfl⟩ := Tape.eq_closed_of_unit gathered
      split at h
      · rename_i empty
        have none : got = #[] := Array.eq_empty_of_size_eq_zero empty
        subst none
        simp only [Prod.mk.injEq] at h
        obtain ⟨-, rfl, rfl⟩ := h
        exact ⟨rfl, rfl, rfl⟩
      · simp at h
    · split at h
      · exact absurd (congrArg Prod.fst h) (readBody_ne_none _ _ _ _)
      · simp at h
      · simp at h
  · rintro ⟨rfl, rfl, rfl⟩
    rfl

/-- An open tape without bytes has its receiver wait. -/
theorem nextFrame_tape_quiet (c : CipherState) (residual : Bytes) :
    ((between c residual).nextFrame Tape.source ⟨[], .quiet⟩).1 = .pending := by
  have found := Tape.gather_eq headerLength #[] ⟨[], .quiet⟩ (Nat.zero_le _)
  rw [Tape.rewind_nil, Tape.unit_short [] (by decide)] at found
  simp [nextFrame, between, readFrame, Stage.idle, found]

theorem receive_of_clear (source : Source ω) {r : Receiver} (clear : r.residual = []) (w : ω) :
    r.receive source w =
      match r.nextFrame source w with
      | (.ready (.ok (some payload)), r, w) => (.ready (.ok payload), r, w)
      | (.ready (.ok none), r, w) => (.ready (.error .streamClosed), r, w)
      | (.ready (.error error), r, w) => (.ready (.error error), r, w)
      | (.pending, r, w) => (.pending, r, w) := by
  rw [receive]
  exact if_neg (by simp [clear])

theorem receive_tape_ok_iff {c : CipherState} {message : Bytes} {t rest : Tape} {next : Receiver} :
    (between c []).receive Tape.source t = (.ready (.ok message), next, rest) ↔
      message.length ≤ maxPayloadLength ∧ ∃ wire last, c.frame message = (.ok wire, last) ∧
        next = between last [] ∧ t = rest.rewind wire := by
  rw [← nextFrame_tape_some_iff, receive_of_clear Tape.source rfl]
  constructor
  · intro h
    split at h <;> simp_all
  · intro h
    rw [h]

theorem readBody_ne_closed (source : Source ω) (r : Receiver) (length : Nat) (got : Array UInt8)
    (w : ω) : (r.readBody source length got w).1 ≠ .ready (.error .streamClosed) := by
  rw [readBody]
  split
  · simp
  · simp
  · simp
  · split
    · simp
    · rename_i failed
      simp [CipherState.error_of_decrypt failed]

theorem readFrame_ne_closed (source : Source ω) (r : Receiver) (w : ω) :
    (r.readFrame source w).1 ≠ .ready (.error .streamClosed) := by
  rw [readFrame]
  split
  · exact readBody_ne_closed _ _ _ _ _
  · split
    · simp
    · simp
    · simp only
      split <;> simp
    · split
      · exact readBody_ne_closed _ _ _ _ _
      · simp
      · rename_i failed
        simp [CipherState.error_of_decrypt failed]

theorem nextFrame_ne_closed (source : Source ω) (r : Receiver) (w : ω) :
    (r.nextFrame source w).1 ≠ .ready (.error .streamClosed) := by
  have never := readFrame_ne_closed source r w
  rw [nextFrame]
  split
  · simp
  · split
    · rename_i failed
      rwa [failed] at never
    · exact never

/-- The clean end is no failure, so it is reported only where the tape ends. -/
theorem receive_tape_closed_iff {c : CipherState} {t rest : Tape} {next : Receiver} :
    (between c []).receive Tape.source t = (.ready (.error .streamClosed), next, rest) ↔
      t = ⟨[], .closed⟩ ∧ rest = t ∧ next = between c [] := by
  rw [← nextFrame_tape_none_iff, receive_of_clear Tape.source rfl]
  constructor
  · intro h
    split at h
    · simp at h
    · simp_all
    · rename_i error last after failed
      have never := nextFrame_ne_closed Tape.source (between c []) t
      rw [failed] at never
      simp_all
    · simp at h
  · intro h
    rw [h]

theorem receive_tape_closed (c : CipherState) :
    (between c []).receive Tape.source ⟨[], .closed⟩ =
      (.ready (.error .streamClosed), between c [], ⟨[], .closed⟩) :=
  receive_tape_closed_iff.2 ⟨rfl, rfl, rfl⟩

theorem readBody_residual (source : Source ω) (r : Receiver) (length : Nat) (got : Array UInt8) (w : ω) :
    (r.readBody source length got w).2.1.residual = r.residual := by
  rw [readBody]
  split
  · rfl
  · rfl
  · rfl
  · split <;> rfl

theorem readFrame_residual (source : Source ω) (r : Receiver) (w : ω) :
    (r.readFrame source w).2.1.residual = r.residual := by
  rw [readFrame]
  split
  · exact readBody_residual ..
  · split
    · rfl
    · rfl
    · simp only
      split <;> rfl
    · split
      · exact readBody_residual ..
      · rfl
      · rfl

theorem nextFrame_residual (source : Source ω) (r : Receiver) (w : ω) :
    (r.nextFrame source w).2.1.residual = r.residual := by
  rw [nextFrame]
  split
  · rfl
  · have kept := readFrame_residual source r w
    split
    · rename_i answer
      rw [answer] at kept
      exact kept
    · exact kept

theorem terminated_of_nextFrame_error {r next : Receiver} {w after : ω} {error : Error}
    (h : r.nextFrame source w = (.ready (.error error), next, after)) : next.terminated = true := by
  rw [nextFrame] at h
  split at h
  · rename_i ended
    simp only [Prod.mk.injEq] at h
    obtain ⟨-, rfl, -⟩ := h
    exact ended
  · split at h
    · simp only [Prod.mk.injEq] at h
      obtain ⟨-, rfl, -⟩ := h
      rfl
    · rename_i other
      exact (other _ _ _ h).elim

end NoiseLink.Receiver
