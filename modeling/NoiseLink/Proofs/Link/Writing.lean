import NoiseLink.Proofs.Cipher.Pace
import NoiseLink.Proofs.Link.Honest
import NoiseLink.Proofs.Sender.Emission

/-! Writing a byte string of any length on a sink that takes everything. The bytes are cut into payloads
of full size and one that carries the rest, and each of them is sent as one frame. What a receiver makes of
them does not depend on where they were cut. -/
namespace NoiseLink

theorem Bytes.chunks_eq {size : Nat} (positive : 0 < size) (bytes : Bytes) :
    chunks size bytes = (List.range ((bytes.length + (size - 1)) / size)).map fun i =>
      (bytes.drop (size * i)).take size := by
  obtain ⟨size, rfl⟩ := Nat.exists_eq_succ_of_ne_zero positive.ne'
  simp only [Nat.succ_eq_add_one, Nat.add_sub_cancel]
  fun_induction chunks (size + 1) bytes with
  | case1 => simp [Nat.div_eq_of_lt]
  | case2 byte rest ih =>
    have count : ((byte :: rest).length + size) / (size + 1) =
        ((rest.drop size).length + size) / (size + 1) + 1 := by
      rw [List.length_cons, List.length_drop, Nat.add_right_comm, Nat.add_assoc,
        Nat.add_div_right _ (Nat.succ_pos size)]
      by_cases long : size ≤ rest.length
      · rw [Nat.sub_add_cancel long]
      · rw [Nat.div_eq_of_lt (by omega), Nat.div_eq_of_lt (by omega)]
    rw [Nat.add_sub_cancel] at ih ⊢
    rw [ih, count, List.range_succ_eq_map, List.map_cons, List.map_map]
    refine congrArg₂ _ rfl (List.map_congr_left fun i _ => ?_)
    have place : (size + 1) * i.succ = size + (size + 1) * i + 1 := by rw [Nat.mul_succ]; omega
    rw [Function.comp_apply, place, List.drop_succ_cons, List.drop_drop]

theorem Bytes.ne_nil_of_mem_chunks {size : Nat} {bytes piece : Bytes} (member : piece ∈ chunks size bytes) :
    piece ≠ [] := by
  fun_induction chunks size bytes with
  | case1 => cases member
  | case2 byte rest ih =>
    rcases List.mem_cons.1 member with rfl | later
    · exact List.cons_ne_nil _ _
    · exact ih later

namespace CipherState

theorem wireLength_flatten (payloads : List Bytes) :
    wireLength payloads = payloads.flatten.length + 34 * payloads.length := by
  rw [wireLength_eq]
  induction payloads with
  | nil => rfl
  | cons payload payloads ih =>
    rw [List.map_cons, List.sum_cons, ih, List.flatten_cons, List.length_append, List.length_cons]
    omega

/-- A list of payloads and the frame of each of them, and the ciphers before and after them. -/
inductive Framed : CipherState → List Bytes → List Bytes → CipherState → Prop where
  | nil {c} : Framed c [] [] c
  | cons {c next last payload payloads frame frames} : c.frame payload = (.ok frame, next) →
      Framed next payloads frames last → Framed c (payload :: payloads) (frame :: frames) last

namespace Framed

variable {c last : CipherState} {payloads frames : List Bytes}

theorem of_lengths (c : CipherState) {payloads : List Bytes}
    (fit : ∀ payload ∈ payloads, payload.length ≤ maxPayloadLength) :
    ∃ frames last, c.Framed payloads frames last := by
  induction payloads generalizing c with
  | nil => exact ⟨[], c, .nil⟩
  | cons payload payloads ih =>
    obtain ⟨fits, others⟩ := List.forall_mem_cons.1 fit
    obtain ⟨frame, next, first⟩ := c.frame_of_length fits
    obtain ⟨frames, last, rest⟩ := ih next others
    exact ⟨frame :: frames, last, .cons first rest⟩

theorem flatten (framed : c.Framed payloads frames last) : c.Frames payloads frames.flatten last := by
  induction framed with
  | nil => exact .nil
  | cons first _ ih => exact .cons first ih

theorem length_eq (framed : c.Framed payloads frames last) : frames.length = payloads.length := by
  induction framed with
  | nil => rfl
  | cons _ _ ih => rw [List.length_cons, List.length_cons, ih]

theorem getElem? (framed : c.Framed payloads frames last) {i : Nat} {payload frame : Bytes}
    (content : payloads[i]? = some payload) (found : frames[i]? = some frame) :
    (c.onward (2 * i)).frame payload = (.ok frame, c.onward (2 * i + 2)) := by
  induction framed generalizing i with
  | nil => cases content
  | @cons c next _ _ _ _ _ first _ ih =>
    have moved := onward_of_frame first
    cases i with
    | zero =>
      cases content
      cases found
      rw [moved] at first
      exact first
    | succ i =>
      have there := ih content found
      rw [moved, onward_onward, onward_onward] at there
      have place : 2 * (i + 1) = 2 + 2 * i := by omega
      rw [place]
      exact there

end Framed

/-- A frame is a sealed length and the payload, sealed under the next place of the cipher. -/
theorem units_of_frame {c last : CipherState} {payload frame : Bytes}
    (framed : c.frame payload = (.ok frame, last)) :
    c.decrypt (frame.take headerLength) =
        (.ok (Bytes.bigEndian lengthPrefixLength payload.length), c.onward 1) ∧
      (c.onward 1).decrypt (frame.drop headerLength) = (.ok payload, c.onward 2) := by
  obtain ⟨header, middle, body, first, second, rfl⟩ := frame_ok_iff.1 framed
  have size : header.length = headerLength := by
    rw [length_of_encrypt first, Bytes.length_bigEndian]; rfl
  have one := onward_of_encrypt first
  subst one
  have two := onward_of_encrypt second
  rw [onward_onward] at two
  subst two
  rw [List.take_left' size, List.drop_left' size]
  exact ⟨decrypt_ok_iff.2 first, decrypt_ok_iff.2 second⟩

end CipherState

def Sink.sendAll (sink : Sink ω) (pieces : List Bytes) (w : ω) : ω :=
  pieces.foldl (fun w piece => (sink.send piece w).2) w

namespace Sender

variable {ω : Type} {sink : Sink ω}

theorem send_accepted (accepts : ∀ bytes w, (sink.send bytes w).1 = .ready (.ok ())) (bytes : Bytes)
    (w : ω) : sink.send bytes w = (.ready (.ok ()), (sink.send bytes w).2) :=
  Prod.ext (accepts bytes w) rfl

theorem sendFrames_accepted (accepts : ∀ bytes w, (sink.send bytes w).1 = .ready (.ok ()))
    {c last : CipherState} {payloads frames : List Bytes} (framed : c.Framed payloads frames last)
    (w : ω) :
    sendFrames sink payloads (start c) w = (.ready (.ok ()), start last, sink.sendAll frames w) := by
  induction framed generalizing w with
  | nil => rfl
  | @cons c next _ _ _ frame _ first _ ih =>
    rw [sendFrames, sendFrame_of_taken first (send_accepted accepts frame w)]
    exact ih _

theorem sendEach_accepted (accepts : ∀ bytes w, (sink.send bytes w).1 = .ready (.ok ()))
    {c last : CipherState} {messages frames : List Bytes} (framed : c.Framed messages frames last)
    (fit : ∀ message ∈ messages, message.length ≤ maxPayloadLength) (w : ω) :
    (start c).sendEach sink messages w =
      (.replicate frames.length (.ready (.ok ())), start last, sink.sendAll frames w) := by
  induction framed generalizing w with
  | nil => rfl
  | @cons c next _ _ _ frame _ first _ ih =>
    obtain ⟨fits, others⟩ := List.forall_mem_cons.1 fit
    rw [sendEach, send_of_taken fits first (send_accepted accepts frame w)]
    simp only
    rw [ih others]
    rfl

/-- What a write comes to: the frames that the sink is given, one at a time, and the sender and the world
after them. -/
structure Written (sink : Sink ω) (bytes : Bytes) (s : Sender) (w : ω) (frames : List Bytes) (next : Sender)
    (after : ω) : Prop where
  answer : s.write sink bytes w = (.ready (.ok bytes.length), next, after)
  given : after = sink.sendAll frames w
  /-- Sending the pieces as messages comes to the same. -/
  sends : s.sendEach sink (Bytes.chunks maxPayloadLength bytes) w =
    (.replicate frames.length (.ready (.ok ())), next, after)
  pieces : Bytes.chunks maxPayloadLength bytes =
    (List.range frames.length).map fun i => (bytes.drop (65535 * i)).take 65535
  count : frames.length = (bytes.length + 65534) / 65535
  total : frames.flatten.length = bytes.length + 34 * frames.length
  alive : next.terminated = false
  cipher : next.cipher = s.cipher.onward (2 * frames.length)
  /-- Each frame is the length of its piece and the piece, sealed, and the piece is not empty. -/
  frame : ∀ i piece frame, (Bytes.chunks maxPayloadLength bytes)[i]? = some piece →
    frames[i]? = some frame → piece ≠ [] ∧ frame.length = 34 + piece.length ∧
      (s.cipher.onward (2 * i)).decrypt (frame.take headerLength) =
        (.ok (Bytes.bigEndian 2 piece.length), s.cipher.onward (2 * i + 1)) ∧
      (s.cipher.onward (2 * i + 1)).decrypt (frame.drop headerLength) =
        (.ok piece, s.cipher.onward (2 * i + 2))

theorem written (accepts : ∀ bytes w, (sink.send bytes w).1 = .ready (.ok ())) {s : Sender}
    (alive : s.terminated = false) (bytes : Bytes) (w : ω) :
    ∃ frames next after, s.Written sink bytes w frames next after ∧
      s.cipher.Framed (Bytes.chunks maxPayloadLength bytes) frames next.cipher := by
  obtain ⟨c, _⟩ := s
  cases alive
  have fit : ∀ piece ∈ Bytes.chunks maxPayloadLength bytes, piece.length ≤ maxPayloadLength :=
    fun _ => Bytes.length_of_mem_chunks (by decide)
  obtain ⟨frames, last, framed⟩ := CipherState.Framed.of_lengths c fit
  have sent := sendFrames_accepted accepts framed w
  have pieces := Bytes.chunks_eq (show 0 < maxPayloadLength by decide) bytes
  have same := framed.length_eq
  have count : frames.length = (bytes.length + 65534) / 65535 := by
    rw [same, pieces, List.length_map, List.length_range]
    rfl
  refine ⟨frames, start last, sink.sendAll frames w, ⟨?_, rfl, sendEach_accepted accepts framed fit w, ?_,
    count, ?_, rfl, ?_, ?_⟩, framed⟩
  · change (start c).write sink bytes w = _
    rw [write, sent]
  · rw [pieces, count]
    rfl
  · rw [framed.flatten.length_eq, CipherState.wireLength_flatten, Bytes.flatten_chunks, same]
  · exact framed.flatten.onward.trans (by rw [same])
  · intro i piece frame content found
    have made := framed.getElem? content found
    obtain ⟨header, body⟩ := CipherState.units_of_frame made
    rw [CipherState.onward_onward] at header body
    refine ⟨Bytes.ne_nil_of_mem_chunks (List.mem_of_getElem? content), ?_, header, ?_⟩
    · rw [CipherState.length_of_frame made]
      simp only [headerLength, lengthPrefixLength, Aead.tagLength]
      omega
    · rwa [CipherState.onward_onward] at body

end Sender

/-- What a receiver with the cipher `c` gets from a stream: the beginning of the plaintext, all of it before
it is told of the end, and all of it if it reads on. -/
structure Receiver.Reads (source : Source ω) (tape : ω → Option Tape) (w : ω) (c : CipherState)
    (plaintext : Bytes) : Prop where
  handed : ∀ calls, (run source calls (start c) w).1.flatMap Completed.bytes <+: plaintext
  whole : ∀ calls error, (run source calls (start c) w).1.findSome? Completed.stop = some error →
    error = .streamClosed ∧ (run source calls (start c) w).1.flatMap Completed.bytes = plaintext
  all : source.Prompt tape → ∀ size, 0 < size → ∃ pieces receiver after,
    (start c).readAll source size #[] w = (pieces, .ended, receiver, after) ∧
      pieces.toList.flatten = plaintext

namespace Receiver

variable {ω : Type} {source : Source ω} {tape : ω → Option Tape}

theorem reads_of_frames (hands : source.Hands tape) {c last : CipherState} {payloads : List Bytes}
    {wire : Bytes} (frames : c.Frames payloads wire last)
    (fit : ∀ payload ∈ payloads, payload.length ≤ maxPayloadLength) {w : ω}
    (holds : tape w = some ⟨wire, .closed⟩) : Reads source tape w c payloads.flatten := by
  have expects : Expects (honest last true) tape payloads (.failed .streamClosed) (start c) w :=
    ⟨c, ⟨wire, .closed⟩, within_between holds, frames, fit, rfl, rfl⟩
  have run calls := expects.run hands (contents_honest ..) calls
  refine ⟨fun calls => ?_, fun calls error found => ?_, fun prompt size positive => ?_⟩
  · obtain ⟨done, next, after, left, ran, balance, -⟩ := run calls
    rw [ran]
    exact ⟨left, balance.symm⟩
  · obtain ⟨done, next, after, left, ran, balance, -, stops⟩ := run calls
    rw [ran] at found ⊢
    obtain ⟨rfl, same⟩ := stops error found
    rw [List.append_nil] at balance
    cases same
    exact ⟨rfl, balance.symm⟩
  · obtain ⟨pieces, receiver, after, read, rest⟩ := expects.readAll hands prompt positive #[]
    exact ⟨_, receiver, after, read, by rw [Array.empty_append, rest]; rfl⟩

end Receiver

namespace Sender

variable {ω : Type} {sink : Sink ω}

/-- Writing is sending in pieces. Each write gives the sink one frame after the other, as sending the pieces
would, and two writes bring a receiver the same bytes as one write of both. No bytes make no frame, while
an empty message makes one. -/
theorem write_chunked (accepts : ∀ bytes w, (sink.send bytes w).1 = .ready (.ok ())) {s : Sender}
    (alive : s.terminated = false) (bytes more : Bytes) (w : ω) :
    ∃ first middle between second last after joined whole world,
      s.Written sink bytes w first middle between ∧
      middle.Written sink more between second last after ∧
      s.Written sink (bytes ++ more) w joined whole world ∧
      (∀ wire ∈ [first.flatten ++ second.flatten, joined.flatten], ∀ (υ : Type) (source : Source υ)
        (tape : υ → Option Tape), source.Hands tape → ∀ v, tape v = some ⟨wire, .closed⟩ →
          Receiver.Reads source tape v s.cipher (bytes ++ more)) ∧
      s.write sink [] w = (.ready (.ok 0), s, w) ∧
      ∃ frame, frame.length = 34 ∧
        s.send sink [] w = (.ready (.ok ()), start (s.cipher.onward 2), (sink.send frame w).2) := by
  obtain ⟨first, middle, between, one, framed⟩ := written accepts alive bytes w
  obtain ⟨second, last, after, two, continued⟩ := written accepts one.alive more between
  obtain ⟨joined, whole, world, both, together⟩ := written accepts alive (bytes ++ more) w
  have fit (bytes : Bytes) : ∀ piece ∈ Bytes.chunks maxPayloadLength bytes,
      piece.length ≤ maxPayloadLength :=
    fun _ => Bytes.length_of_mem_chunks (by decide)
  refine ⟨first, middle, between, second, last, after, joined, whole, world, one, two, both, ?_, ?_, ?_⟩
  · intro wire member υ source tape hands v holds
    simp only [List.mem_cons, List.not_mem_nil, or_false] at member
    rcases member with rfl | rfl
    · have reads := Receiver.reads_of_frames hands (framed.flatten.append continued.flatten)
        (List.forall_mem_append.2 ⟨fit bytes, fit more⟩) holds
      rwa [List.flatten_append, Bytes.flatten_chunks, Bytes.flatten_chunks] at reads
    · have reads := Receiver.reads_of_frames hands together.flatten (fit _) holds
      rwa [Bytes.flatten_chunks] at reads
  · rw [write, Bytes.chunks, sendFrames]
    rfl
  · obtain ⟨c, _⟩ := s
    cases alive
    have fits : ([] : Bytes).length ≤ maxPayloadLength := by decide
    obtain ⟨frame, next, framed⟩ := c.frame_of_length fits
    obtain rfl := CipherState.onward_of_frame framed
    exact ⟨frame, CipherState.length_of_frame framed,
      send_of_taken fits framed (send_accepted accepts frame w)⟩

/-- Two bytes and then one more on a sink that keeps them: two frames. -/
theorem write_chunked_of_three_bytes :
    (∀ bytes w, (recorder.send bytes w).1 = .ready (.ok ())) ∧
    ∃ first middle between second last after,
      (start (.start (.zero 32) (.zero 32))).Written recorder [104, 105] [] first middle between ∧
      middle.Written recorder [33] between second last after ∧
      first.length = 1 ∧ first.flatten.length = 36 ∧ second.length = 1 ∧ second.flatten.length = 35 := by
  have accepts : ∀ bytes w, (recorder.send bytes w).1 = .ready (.ok ()) := fun _ _ => rfl
  obtain ⟨first, middle, between, second, last, after, -, -, -, one, two, -⟩ :=
    write_chunked accepts (s := start (.start (.zero 32) (.zero 32))) rfl [104, 105] [33] []
  have single := one.count
  have other := two.count
  exact ⟨accepts, first, middle, between, second, last, after, one, two, single,
    by rw [one.total, single]; rfl, other, by rw [two.total, other]; rfl⟩

end Sender
end NoiseLink
