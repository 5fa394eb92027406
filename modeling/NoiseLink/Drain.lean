import NoiseLink.Receiver

/-! Taking all that a stream or a connection has to give, piece by piece, until it ends, fails or
would have to wait. -/
namespace NoiseLink

/-- Why a reader that takes all there is came to a stop. -/
inductive Stop (ε : Type) where
  | ended
  | pending
  | failed (cause : ε)

def Stop.map (f : ε → δ) : Stop ε → Stop δ
  | ended => ended
  | pending => pending
  | failed cause => failed (f cause)

/-- Receives pieces of up to `size` bytes. -/
def Source.drain (source : Source ω) (size : Nat) (pieces : Array Bytes) (w : ω) :
    Array Bytes × Stop NetworkError × ω :=
  match _answer : source.receive size w with
  | (.ready (.ok (byte :: bytes)), w) => source.drain size (pieces.push (byte :: bytes)) w
  | (.ready (.ok []), w) => (pieces, .ended, w)
  | (.ready (.error cause), w) => (pieces, .failed cause, w)
  | (.pending, w) => (pieces, .pending, w)
termination_by source.supply w
decreasing_by exact source.supply_lt _ _ _ _ _ _answer

namespace Receiver

/-- What is left to hand out, for comparing states of a receiver: what may still come from the
stream, then what is left of the last frame. -/
def remaining (source : Source ω) (r : Receiver) (w : ω) : Nat × Nat :=
  (2 * source.supply w + r.underway, r.residual.length)

/-- The order in which `remaining` decreases. -/
abbrev Less : Nat × Nat → Nat × Nat → Prop := Prod.Lex (· < ·) (· < ·)

/-- Reading some bytes leaves less to hand out. -/
theorem remaining_read {source : Source ω} {size : Nat} {r next : Receiver} {w rest : ω}
    {byte : UInt8} {bytes : Bytes}
    (h : r.read source size w = (.ready (.ok (byte :: bytes)), next, rest)) :
    Less (next.remaining source rest) (r.remaining source w) := by
  fun_induction Receiver.read source size r w with
  | case1 => simp at h
  | case2 r w some left =>
    simp only [Prod.mk.injEq] at h
    obtain ⟨-, rfl, rfl⟩ := h
    have : 0 < r.residual.length := List.length_pos_iff.2 left
    exact Prod.Lex.right _ (by simp; omega)
  | case3 r w some empty r' w' answer ih =>
    have less := nextFrame_some answer
    rcases Prod.lex_def.1 (ih h) with earlier | ⟨same, -⟩
    · exact Prod.Lex.left _ _ (by simp only [remaining] at earlier ⊢; omega)
    · exact Prod.Lex.left _ _ (by simp only [remaining] at same ⊢; omega)
  | case4 r w some empty payload nonempty r' w' answer =>
    have less := nextFrame_some answer
    simp only [Prod.mk.injEq] at h
    obtain ⟨-, rfl, rfl⟩ := h
    exact Prod.Lex.left _ _ (by simpa [underway] using less)
  | case5 => simp at h
  | case6 => simp at h
  | case7 => simp at h

/-- Receiving a message leaves less to hand out. -/
theorem remaining_receive {source : Source ω} {r next : Receiver} {w rest : ω} {message : Bytes}
    (h : r.receive source w = (.ready (.ok message), next, rest)) :
    Less (next.remaining source rest) (r.remaining source w) := by
  rw [receive] at h
  split at h
  · rename_i left
    simp only [Prod.mk.injEq] at h
    obtain ⟨-, rfl, rfl⟩ := h
    exact Prod.Lex.right _ (List.length_pos_iff.2 left)
  · split at h
    · rename_i answer
      simp only [Prod.mk.injEq, Poll.ready.injEq] at h
      obtain ⟨-, rfl, rfl⟩ := h
      exact Prod.Lex.left _ _ (nextFrame_some answer)
    all_goals simp at h

/-- What has become less stays so when the stream loses more. -/
theorem less_of_less_of_le {source : Source ω} {r next : Receiver} {w rest later : ω}
    (less : Less (next.remaining source rest) (r.remaining source w))
    (le : source.supply later ≤ source.supply rest) :
    Less (next.remaining source later) (r.remaining source w) := by
  rcases Prod.lex_def.1 less with earlier | ⟨same, shorter⟩
  · exact Prod.Lex.left _ _ (by simp only [remaining] at earlier ⊢; omega)
  · by_cases equal : source.supply later = source.supply rest
    · simpa only [remaining, equal] using less
    · exact Prod.Lex.left _ _ (by simp only [remaining] at same ⊢; omega)

def readAll (source : Source ω) (size : Nat) (pieces : Array Bytes) (r : Receiver) (w : ω) :
    Array Bytes × Stop Error × Receiver × ω :=
  match _answer : r.read source size w with
  | (.ready (.ok (byte :: bytes)), r, w) => r.readAll source size (pieces.push (byte :: bytes)) w
  | (.ready (.ok []), r, w) => (pieces, .ended, r, w)
  | (.ready (.error error), r, w) => (pieces, .failed error, r, w)
  | (.pending, r, w) => (pieces, .pending, r, w)
termination_by r.remaining source w
decreasing_by exact remaining_read _answer

/-- Receives messages until one fails or would have to be waited for. -/
def receiveAll (source : Source ω) (messages : Array Bytes) (r : Receiver) (w : ω) :
    Array Bytes × Stop Error × Receiver × ω :=
  match _answer : r.receive source w with
  | (.ready (.ok message), r, w) => r.receiveAll source (messages.push message) w
  | (.ready (.error error), r, w) => (messages, .failed error, r, w)
  | (.pending, r, w) => (messages, .pending, r, w)
termination_by r.remaining source w
decreasing_by exact remaining_receive _answer

end Receiver
end NoiseLink
