import NoiseLink.Connection
import NoiseLink.Drain

/-! Writing back what a connection brings. One piece is read and written back before the next is
read, so what has been written back is at any time what has been read so far, or all of it but
the last piece. -/
namespace NoiseLink

/-- Writing does not add to what there is to receive. -/
theorem Sender.supply_sendFrames (d : Duplex ω) (payloads : List Bytes) (s : Sender) (w : ω) :
    d.source.supply (Sender.sendFrames d.sink payloads s w).2.2 ≤ d.source.supply w := by
  have frame (payload : Bytes) (s : Sender) (w : ω) :
      d.source.supply (s.sendFrame d.sink payload w).2.2 ≤ d.source.supply w := by
    unfold Sender.sendFrame
    split
    · exact Nat.le_refl _
    · split
      · exact Nat.le_refl _
      · rename_i frame _ _
        have := d.supply_send frame w
        split <;> simp_all
  induction payloads generalizing s w with
  | nil => exact Nat.le_refl _
  | cons payload rest ih =>
    have first := frame payload s w
    rw [Sender.sendFrames]
    split
    · rename_i sent
      rw [sent] at first
      exact Nat.le_trans (ih _ _) first
    · rename_i stopped
      simpa using first

theorem Sender.supply_write (d : Duplex ω) (bytes : Bytes) (s : Sender) (w : ω) :
    d.source.supply (s.write d.sink bytes w).2.2 ≤ d.source.supply w := by
  have := Sender.supply_sendFrames d (Bytes.chunks maxPayloadLength bytes) s w
  unfold Sender.write
  split <;> simp_all

namespace Echo

/-- A connection that is being served. -/
structure Relay where
  connection : Connection
  total : Nat := 0

namespace Relay

/-- How service comes to its end. -/
inductive Ending where
  /-- The peer has ended its direction, and this side has followed. -/
  | closed
  | readFailed (error : Error)
  | writeFailed (error : Error)
deriving DecidableEq

/-- Serves a connection through a buffer of `size` bytes until its peer has to be waited for or
service ends. A write is not waited for. -/
def advance (d : Duplex ω) (size : Nat) (r : Relay) (w : ω) : Option Ending × Relay × ω :=
  match _answer : r.connection.receiver.read d.source size w with
  | (.pending, receiver, w) => (none, ⟨{ r.connection with receiver }, r.total⟩, w)
  | (.ready (.error error), receiver, w) =>
    (some (.readFailed error), ⟨{ r.connection with receiver }, r.total⟩, w)
  | (.ready (.ok []), receiver, w) =>
    let (_, sender, w) := r.connection.sender.close d.sink w
    (some .closed, ⟨{ r.connection with sender, receiver }, r.total⟩, w)
  | (.ready (.ok (byte :: bytes)), receiver, before) =>
    match _written : r.connection.sender.write d.sink (byte :: bytes) before with
    | (.ready (.ok written), sender, after) =>
      advance d size ⟨{ r.connection with sender, receiver }, r.total + written⟩ after
    | (.ready (.error error), sender, w) =>
      (some (.writeFailed error), ⟨{ r.connection with sender, receiver }, r.total⟩, w)
    | (.pending, sender, w) =>
      (some (.writeFailed (.network .timeout)), ⟨{ r.connection with sender, receiver }, r.total⟩, w)
termination_by r.connection.receiver.remaining d.source w
decreasing_by
  have kept := Sender.supply_write d (byte :: bytes) r.connection.sender before
  rw [_written] at kept
  exact Receiver.less_of_less_of_le (Receiver.remaining_read _answer) kept

end Relay
end Echo
end NoiseLink
