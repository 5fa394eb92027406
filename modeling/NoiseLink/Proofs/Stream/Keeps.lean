import NoiseLink.Drain

/-! Something in the world that a stream does not touch. What only receives from a stream, or only
sends on one, leaves it as it was, however many attempts that takes. -/
namespace NoiseLink

variable {ω α : Type} {source : Source ω} {sink : Sink ω} {view : ω → α}

/-- Receiving makes no difference to what is seen of the world. -/
def Source.Keeps (source : Source ω) (view : ω → α) : Prop :=
  ∀ size w, view (source.receive size w).2 = view w

structure Sink.Keeps (sink : Sink ω) (view : ω → α) : Prop where
  send : ∀ bytes w, view (sink.send bytes w).2 = view w
  close : ∀ w, view (sink.close w).2 = view w

theorem Source.Keeps.gather (keeps : source.Keeps view) (size : Nat) (got : Array UInt8) (w : ω) :
    view (source.gather size got w).2 = view w := by
  fun_induction Source.gather source size got w with
  | case1 got w short rest h => simpa [h] using keeps (size - got.size) w
  | case2 got w short cause rest h => simpa [h] using keeps (size - got.size) w
  | case3 got w short rest h => simpa [h] using keeps (size - got.size) w
  | case4 got w short byte bytes rest h ih =>
    have same := keeps (size - got.size) w
    rw [h] at same
    exact ih.trans same
  | case5 => rfl

namespace Receiver

theorem keeps_readBody (keeps : source.Keeps view) (r : Receiver) (length : Nat) (got : Array UInt8)
    (w : ω) : view (r.readBody source length got w).2.2 = view w := by
  have same := keeps.gather (length + Aead.tagLength) got w
  rw [readBody]
  split
  · rename_i gathered
    rwa [gathered] at same
  · rename_i gathered
    rwa [gathered] at same
  · rename_i gathered
    rwa [gathered] at same
  · rename_i gathered
    rw [gathered] at same
    split <;> exact same

theorem keeps_readFrame (keeps : source.Keeps view) (r : Receiver) (w : ω) :
    view (r.readFrame source w).2.2 = view w := by
  rw [readFrame]
  split
  · exact keeps_readBody keeps ..
  · rename_i got _
    have same := keeps.gather headerLength got w
    split
    · rename_i gathered
      rwa [gathered] at same
    · rename_i gathered
      rwa [gathered] at same
    · rename_i gathered
      rw [gathered] at same
      simp only
      split <;> exact same
    · rename_i gathered
      rw [gathered] at same
      split
      · exact (keeps_readBody keeps ..).trans same
      · exact same
      · exact same

theorem keeps_nextFrame (keeps : source.Keeps view) (r : Receiver) (w : ω) :
    view (r.nextFrame source w).2.2 = view w := by
  have same := keeps_readFrame keeps r w
  rw [nextFrame]
  split
  · rfl
  · split
    · rename_i failed
      rwa [failed] at same
    · exact same

theorem keeps_receive (keeps : source.Keeps view) (r : Receiver) (w : ω) :
    view (r.receive source w).2.2 = view w := by
  have same := keeps_nextFrame keeps r w
  rw [receive]
  split
  · rfl
  · split <;> rename_i answer <;> rwa [answer] at same

theorem keeps_read (keeps : source.Keeps view) (size : Nat) (r : Receiver) (w : ω) :
    view (r.read source size w).2.2 = view w := by
  fun_induction Receiver.read source size r w with
  | case1 => rfl
  | case2 => rfl
  | case3 r w some empty next after answer ih =>
    have same := keeps_nextFrame keeps r w
    rw [answer] at same
    exact ih.trans same
  | case4 r w _ _ _ next after _ answer =>
    have same := keeps_nextFrame keeps r w
    rwa [answer] at same
  | case5 r w _ _ next after answer =>
    have same := keeps_nextFrame keeps r w
    rwa [answer] at same
  | case6 r w _ _ error next after answer =>
    have same := keeps_nextFrame keeps r w
    rwa [answer] at same
  | case7 r w _ _ next after answer =>
    have same := keeps_nextFrame keeps r w
    rwa [answer] at same

end Receiver

namespace Sender

theorem keeps_sendFrame (keeps : sink.Keeps view) (payload : Bytes) (s : Sender) (w : ω) :
    view (s.sendFrame sink payload w).2.2 = view w := by
  rw [sendFrame]
  split
  · rfl
  · split
    · rfl
    · rename_i frame cipher framed
      have same := keeps.send frame w
      split <;> rename_i answer <;> rwa [answer] at same

theorem keeps_sendFrames (keeps : sink.Keeps view) (payloads : List Bytes) (s : Sender) (w : ω) :
    view (sendFrames sink payloads s w).2.2 = view w := by
  induction payloads generalizing s w with
  | nil => rfl
  | cons payload payloads ih =>
    have same := keeps_sendFrame keeps payload s w
    rw [sendFrames]
    split
    · rename_i answer
      rw [answer] at same
      exact (ih _ _).trans same
    · exact same

theorem keeps_send (keeps : sink.Keeps view) (message : Bytes) (s : Sender) (w : ω) :
    view (s.send sink message w).2.2 = view w := by
  rw [send]
  split
  · rfl
  · exact keeps_sendFrame keeps ..

theorem keeps_write (keeps : sink.Keeps view) (bytes : Bytes) (s : Sender) (w : ω) :
    view (s.write sink bytes w).2.2 = view w := by
  have same := keeps_sendFrames keeps (Bytes.chunks maxPayloadLength bytes) s w
  rw [write]
  split <;> rename_i answer <;> rwa [answer] at same

theorem keeps_close (keeps : sink.Keeps view) (s : Sender) (w : ω) :
    view (s.close sink w).2.2 = view w := by
  have same := keeps.close w
  rw [close]
  split <;> rename_i answer <;> rwa [answer] at same

/-- What every send that succeeds preserves is preserved by a write that succeeds. -/
theorem kept_of_sendFrames {P : ω → Prop}
    (kept : ∀ bytes w after, sink.send bytes w = (.ready (.ok ()), after) → P w → P after)
    {payloads : List Bytes} {s next : Sender} {w after : ω}
    (sent : sendFrames sink payloads s w = (.ready (.ok ()), next, after)) (holds : P w) : P after := by
  induction payloads generalizing s w with
  | nil =>
    cases sent
    exact holds
  | cons payload payloads ih =>
    rw [sendFrames] at sent
    split at sent
    · rename_i framed
      rw [sendFrame] at framed
      split at framed
      · cases framed
      · split at framed
        · cases framed
        · split at framed <;> cases framed
          rename_i taken
          exact ih sent (kept _ _ _ taken holds)
    · rename_i stopped
      exact absurd sent (stopped _ _)

theorem kept_of_write {P : ω → Prop}
    (kept : ∀ bytes w after, sink.send bytes w = (.ready (.ok ()), after) → P w → P after) {bytes : Bytes}
    {count : Nat} {s next : Sender} {w after : ω}
    (written : s.write sink bytes w = (.ready (.ok count), next, after)) (holds : P w) : P after := by
  rw [write] at written
  split at written <;> cases written
  rename_i sent
  exact kept_of_sendFrames kept sent holds

end Sender
end NoiseLink
