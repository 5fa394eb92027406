import NoiseLink.Proofs.Link.RoundTrip

/-! A link over a stream that speaks promptly. Its receiver waits only once it has handed out all that
was sent, whether the sender has closed the line or not, and if it asks for messages it can go on to the
last of them. -/
namespace NoiseLink

open Receiver (Expects honest contents_honest)

variable {ω : Type} {sink : Sink ω} {source : Source ω} {tape : ω → Option Tape}

namespace Receiver

/-- An attempt has to wait only when nothing is left over of a frame. -/
theorem clear_of_waits {call : Call} {r next : Receiver} {w after : ω}
    (waits : r.attempt source call w = (.pending, next, after)) : next.residual = [] := by
  have kept {r middle : Receiver} {w rest : ω} {answer : Poll (Except Error (Option Bytes))}
      (none : ¬ r.residual ≠ []) (found : r.nextFrame source w = (answer, middle, rest)) :
      middle.residual = [] := by
    have same := nextFrame_residual source r w
    rw [found] at same
    exact same.trans (Decidable.not_not.1 none)
  cases call with
  | receive =>
    rw [attempt, receive] at waits
    split at waits
    · simp at waits
    · rename_i none
      split at waits <;> rename_i found <;> cases waits
      exact kept none found
  | read size =>
    rw [attempt] at waits
    fun_induction Receiver.read source size r w with
    | case3 r w some none middle rest found ih => exact ih waits
    | case7 r w some none middle rest found =>
      cases waits
      exact kept none found
    | case1 => simp at waits
    | case2 => simp at waits
    | case4 => simp at waits
    | case5 => simp at waits
    | case6 => simp at waits

/-- Whoever waits at the end of an honest tape is owed nothing: a whole frame would be taken, and
the frames that were sent are whole. -/
theorem Expects.nil_of_paused (hands : source.Hands tape) (prompt : source.Prompt tape)
    {last : CipherState} {closed : Bool} {payloads : List Bytes} {stop : Stop Error} {r : Receiver}
    {w : ω} {left : Tape} (expects : Expects (honest last closed) tape payloads stop r w)
    (paused : source.Paused tape w left) : payloads = [] := by
  obtain ⟨c, t, ⟨-, begun, rest, place, holds, rfl⟩, contents⟩ := expects
  have same := paused.holds hands
  rw [prompt w left paused, holds] at same
  cases same
  cases payloads with
  | nil => rfl
  | cons payload payloads =>
    obtain ⟨next, others, found, -⟩ := honest_cons contents
    have waits := place.nextFrame [] .quiet
    rw [Tape.rewind, List.append_nil] at found
    rw [found] at waits
    cases waits

end Receiver

namespace Link

/-- A link on which nothing is lost, added or put out of order. -/
structure Complete (source : Source ω) (l : Link ω) : Prop where
  joined : l.frames.flatten = l.sent
  order : l.handed <+: l.sent ∧ (l.Whole → l.messages <+: l.frames)
  stops : ∀ d ∈ l.done, ∀ error, d.stop = some error →
    error = .streamClosed ∧ l.closed = true ∧ l.handed = l.sent
  waits : ∀ call next after, l.receiver.attempt source call l.world = (.pending, next, after) →
    l.handed = l.sent ∧ (call = .receive → l.Whole → l.messages = l.frames)
  rest : l.Whole → ∃ messages receiver after,
    l.receiver.receiveAll source #[] l.world = (messages, l.outlook, receiver, after) ∧
      l.messages ++ messages.toList = l.frames

theorem Sound.complete (line : Line sink source tape) (prompt : source.Prompt tape)
    {payloads : List Bytes} {l : Link ω} (sound : l.Sound tape payloads) : l.Complete source := by
  obtain ⟨-, joined, expects, balance, whole, stops, -⟩ := sound
  refine ⟨joined, ⟨⟨_, balance.symm⟩, fun only => ⟨_, (whole only).2.symm⟩⟩, ?_, ?_, ?_⟩
  · intro d member error found
    obtain ⟨ends, closed, paid, -⟩ := stops d member error found
    exact ⟨ends, closed, by rw [balance, paid, List.append_nil]⟩
  · intro call next after waits
    have served := expects.attempt line.hands (contents_honest ..) call
    rw [waits] at served
    cases served with
    | @waits others _ _ left kept same only paused =>
      have paid : others = [] := kept.nil_of_paused line.hands prompt paused
      have clear : next.residual = [] := Receiver.clear_of_waits waits
      rw [clear, paid] at same
      refine ⟨by rw [balance, same]; exact (List.append_nil _).symm, fun receives wholly => ?_⟩
      rw [(whole wholly).2, (only receives).2, paid, List.append_nil]
  · intro only
    obtain ⟨clear, split⟩ := whole only
    obtain ⟨receiver, after, received⟩ := expects.receiveAll line.hands prompt #[] clear
    exact ⟨_, receiver, after, received, by simp [split]⟩

end Link
end NoiseLink
