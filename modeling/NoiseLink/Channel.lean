import NoiseLink.ByteQueue
import NoiseLink.Error
import NoiseLink.Wire

/-! A byte stream in memory. It holds what was sent and not yet received, and at most one waiter,
whoever last found it empty; sending and closing wake the waiter. -/
namespace NoiseLink

structure Channel (τ : Type) where
  buffer : ByteQueue := {}
  waiter : Option τ := none
  closed : Bool := false
  /-- The most bytes that one attempt to receive delivers, if there is a limit. -/
  maxRead : Option Nat := none

namespace Channel

/-- Puts bytes into the channel and tells whom to wake. -/
def send (c : Channel τ) (bytes : Bytes) : Except NetworkError (Channel τ × Option τ) :=
  if c.closed then .error .closed
  else .ok ({ c with buffer := c.buffer.push bytes, waiter := none }, c.waiter)

/-- Ends the channel and tells whom to wake. What it still holds can be received. -/
def close (c : Channel τ) : Channel τ × Option τ :=
  ({ c with closed := true, waiter := none }, c.waiter)

/-- One attempt to receive up to `size` bytes; `who` waits if there are none. -/
def receive (c : Channel τ) (who : τ) (size : Nat) : Poll Bytes × Channel τ :=
  if size = 0 then (.ready [], c)
  else if c.buffer.isEmpty then
    if c.closed then (.ready [], c) else (.pending, { c with waiter := some who })
  else
    let (bytes, buffer) := c.buffer.take (min size (c.maxRead.getD size))
    (.ready bytes, { c with buffer })

end Channel
end NoiseLink
