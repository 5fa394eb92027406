import NoiseLink.Proofs.Receiver.Accept

/-! A stream that arrives in pieces and has its receiver wait after each of them. -/
namespace NoiseLink

def pieces : Source (List Bytes) where
  receive
    | _, [] => (.pending, [])
    | _, [] :: later => (.pending, later)
    | size, piece :: later => (.ready (.ok (piece.take size)), piece.drop size :: later)
  supply w := w.flatten.length
  supply_le size w := by
    match w with
    | [] => exact Nat.le_refl _
    | [] :: later => exact Nat.le_refl _
    | (byte :: piece) :: later =>
      simp only [List.flatten_cons, List.length_append, List.length_drop]
      omega
  supply_lt size w first bytes rest taken := by
    match w with
    | [] => cases taken
    | [] :: later => cases taken
    | (byte :: piece) :: later =>
      obtain ⟨delivered, rfl⟩ := Prod.mk.inj taken
      cases size with
      | zero => cases delivered
      | succ size =>
        simp only [List.flatten_cons, List.length_append, List.length_drop, List.length_cons]
        omega

def pieces? (w : List Bytes) : Option Tape := some ⟨w.flatten, .quiet⟩

theorem hands_pieces : pieces.Hands pieces? := by
  refine Source.hands_of_handing ?_
  intro w t size holds positive
  cases holds
  match w with
  | [] => exact .waits rfl
  | [] :: later => exact .waits rfl
  | (byte :: piece) :: later =>
    obtain ⟨size, rfl⟩ := Nat.exists_eq_succ_of_ne_zero positive.ne'
    refine .delivers ?_ ?_ ?_ rfl
    · simp
    · simp
    · simp [Tape.rewind, ← List.append_assoc]

variable {size : Nat} {got : Array UInt8} {piece : Bytes}

theorem gather_pieces (content : piece ≠ []) (unit : Octets size) (whole : unit.bytes = got.toList ++ piece)
    (rest : Bytes) (later : List Bytes) :
    pieces.gather size got ((piece ++ rest) :: later) = (.full unit, rest :: later) := by
  obtain ⟨byte, tail, rfl⟩ := List.exists_cons_of_ne_nil content
  have total : size = got.size + (byte :: tail).length := by
    rw [← unit.length_bytes, whole, List.length_append, Array.length_toList]
  have short : got.size < size := total ▸ Nat.lt_add_of_pos_right (Nat.succ_pos _)
  have missing : size - got.size = (byte :: tail).length := by rw [total, Nat.add_sub_cancel_left]
  have taken : pieces.receive (size - got.size) (((byte :: tail) ++ rest) :: later) =
      (.ready (.ok (byte :: tail)), rest :: later) := by
    rw [missing]
    change (Poll.ready (Except.ok (((byte :: tail) ++ rest).take (byte :: tail).length)),
      ((byte :: tail) ++ rest).drop (byte :: tail).length :: later) = _
    rw [List.take_left, List.drop_left]
  have full : ¬ (got ++ byte :: tail).size < size := by
    rw [size_append_cons, total, List.length_cons]
    omega
  have same : (got ++ byte :: tail).toList.take size = unit.bytes := by
    rw [Array.toList_appendList, ← whole, List.take_of_length_le (Nat.le_of_eq unit.length_bytes)]
  rw [Source.gather, dif_pos short]
  simp only [taken]
  rw [Source.gather, dif_neg full]
  exact Prod.ext (congrArg Gathered.full (Octets.ext same)) rfl

theorem gather_pieces_short (short : got.size + piece.length < size) (later : List Bytes) :
    pieces.gather size got (piece :: later) = (.waiting (got ++ piece), later) := by
  cases piece with
  | nil =>
    have missing : got.size < size := short
    rw [Source.gather, dif_pos missing]
    simp [pieces]
  | cons byte tail =>
    have few : got.size < size := Nat.lt_of_le_of_lt (Nat.le_add_right ..) short
    have most : (byte :: tail).length ≤ size - got.size := Nat.le_sub_of_add_le' (Nat.le_of_lt short)
    have taken : pieces.receive (size - got.size) ((byte :: tail) :: later) =
        (.ready (.ok (byte :: tail)), [] :: later) := by
      change (Poll.ready (Except.ok ((byte :: tail).take (size - got.size))),
        (byte :: tail).drop (size - got.size) :: later) = _
      rw [List.take_of_length_le most, List.drop_of_length_le most]
    have still : (got ++ byte :: tail).size < size := by
      rw [size_append_cons]
      exact short
    rw [Source.gather, dif_pos few]
    simp only [taken]
    rw [Source.gather, dif_pos still]
    rfl

namespace Receiver

variable {c middle last : CipherState} {payload header body residual : Bytes}

theorem nextFrame_header_waits (short : got.size + piece.length < headerLength) (later : List Bytes) :
    nextFrame pieces ⟨c, .header got, residual, false⟩ (piece :: later) =
      (.pending, ⟨c, .header (got ++ piece), residual, false⟩, later) := by
  simp [nextFrame, readFrame, gather_pieces_short short]

theorem nextFrame_body_waits {length : Nat} (short : got.size + piece.length < length + Aead.tagLength)
    (later : List Bytes) :
    nextFrame pieces ⟨c, .body length got, residual, false⟩ (piece :: later) =
      (.pending, ⟨c, .body length (got ++ piece), residual, false⟩, later) := by
  simp [nextFrame, readFrame, readBody, gather_pieces_short short]

theorem nextFrame_header (fits : payload.length ≤ maxPayloadLength)
    (first : c.encrypt (Bytes.bigEndian lengthPrefixLength payload.length) = (.ok header, middle))
    (content : piece ≠ []) (whole : header = got.toList ++ piece) (rest : Bytes) (later : List Bytes) :
    nextFrame pieces ⟨c, .header got, residual, false⟩ ((piece ++ rest) :: later) =
      nextFrame pieces ⟨middle, .body payload.length #[], residual, false⟩ (rest :: later) := by
  have size : header.length = headerLength := by
    rw [CipherState.length_of_encrypt first, Bytes.length_bigEndian]; rfl
  have opened := CipherState.decrypt_ok_iff.2 first
  have back := @Bytes.ofBigEndian_bigEndian lengthPrefixLength _ (Nat.lt_succ_of_le fits)
  obtain ⟨high, low, two⟩ : ∃ high low, Bytes.bigEndian lengthPrefixLength payload.length =
      [high, low] := ⟨_, _, rfl⟩
  rw [two] at opened back
  have gathered := gather_pieces content ⟨header, size⟩ whole rest later
  rw [← back]
  simp only [nextFrame, readFrame, gathered, opened, readBody, Bool.false_eq_true, if_false]

theorem nextFrame_body (second : middle.encrypt payload = (.ok body, last)) (content : piece ≠ [])
    (whole : body = got.toList ++ piece) (rest : Bytes) (later : List Bytes) :
    nextFrame pieces ⟨middle, .body payload.length got, residual, false⟩ ((piece ++ rest) :: later) =
      (.ready (.ok (some payload)), between last residual, rest :: later) := by
  have gathered := gather_pieces content ⟨body, CipherState.length_of_encrypt second⟩ whole rest later
  simp [nextFrame, readFrame, readBody, gathered, CipherState.decrypt_ok_iff.2 second, between]

/-- A receiver opens a frame that comes in one piece. -/
theorem nextFrame_piece {wire : Bytes} (fits : payload.length ≤ maxPayloadLength)
    (framed : c.frame payload = (.ok wire, last)) (residual rest : Bytes) (later : List Bytes) :
    (between c residual).nextFrame pieces ((wire ++ rest) :: later) =
      (.ready (.ok (some payload)), between last residual, rest :: later) := by
  obtain ⟨header, middle, body, first, second, rfl⟩ := CipherState.frame_ok_iff.1 framed
  have begun : header ≠ [] := by
    rintro rfl
    cases CipherState.length_of_encrypt first
  have more : body ≠ [] := by
    rintro rfl
    cases CipherState.length_of_encrypt second
  rw [List.append_assoc]
  exact (nextFrame_header fits first begun rfl (body ++ rest) later).trans
    (nextFrame_body second more rfl rest later)

/-- At the end of a piece it has to wait. -/
theorem nextFrame_pieces_pause (c : CipherState) (residual : Bytes) (later : List Bytes) :
    (between c residual).nextFrame pieces ([] :: later) = (.pending, between c residual, later) :=
  nextFrame_header_waits (by decide) later

end Receiver
end NoiseLink
