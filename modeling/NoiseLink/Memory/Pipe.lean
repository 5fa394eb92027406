import NoiseLink.Channel

/-! A channel of the in-memory network together with the faults that it is told to show. A sink may
fail or stall at chosen calls, closing may fail, and a stream may break off after a number of
bytes. -/
namespace NoiseLink.Memory

/-- Who waits at the empty end of a pipe: the caller, or a handshake of a listener. -/
inductive Waiter where
  | caller
  | handshake (listener id : Nat)
deriving DecidableEq

/-- What becomes of a call to send in place of sending. -/
inductive SendFault where
  | fails (cause : NetworkError)
  | stalls
deriving DecidableEq

structure Faults where
  /-- By the number of the call, counted from zero. -/
  sends : List (Nat × SendFault) := []
  close : Option NetworkError := none
  /-- How many bytes the stream still delivers, and how it fails after them. -/
  allowance : Option (Nat × NetworkError) := none

structure Pipe where
  channel : Channel Waiter := {}
  faults : Faults := {}
  sends : Nat := 0

namespace Pipe

def held (p : Pipe) : Nat := p.channel.buffer.toList.length

/-- One call to send; an answer tells whom to wake. -/
def send (p : Pipe) (bytes : Bytes) : Poll (Except NetworkError (Option Waiter)) × Pipe :=
  let called := { p with sends := p.sends + 1 }
  match p.faults.sends.lookup p.sends with
  | some .stalls => (.pending, called)
  | some (.fails cause) => (.ready (.error cause), called)
  | none =>
    match p.channel.send bytes with
    | .ok (channel, woken) => (.ready (.ok woken), { called with channel })
    | .error cause => (.ready (.error cause), called)

/-- Ends the pipe, whatever faults it has, and tells whom to wake. -/
def shut (p : Pipe) : Option Waiter × Pipe :=
  let (channel, woken) := p.channel.close
  (woken, { p with channel })

def close (p : Pipe) : Except NetworkError (Option Waiter) × Pipe :=
  match p.faults.close with
  | some cause => (.error cause, p)
  | none => (.ok p.shut.1, p.shut.2)

/-- One attempt of `who` to receive up to `size` bytes. -/
def receive (p : Pipe) (who : Waiter) (size : Nat) : Poll (Except NetworkError Bytes) × Pipe :=
  match p.faults.allowance with
  | some (0, cause) => (.ready (.error cause), p)
  | allowance =>
    let limit := allowance.elim size fun (left, _) => min size left
    match p.channel.receive who limit with
    | (.pending, channel) => (.pending, { p with channel })
    | (.ready bytes, channel) =>
      let allowance := allowance.map fun (left, cause) => (left - bytes.length, cause)
      (.ready (.ok bytes), { p with channel, faults := { p.faults with allowance } })

/-- An attempt takes exactly what it delivers. -/
theorem held_receive (p : Pipe) (who : Waiter) (size : Nat) :
    (p.receive who size).2.held + (p.receive who size).1.delivered = p.held := by
  have taken (limit : Nat) : (p.channel.receive who limit).2.buffer.toList.length +
      (match (p.channel.receive who limit).1 with
        | .ready bytes => bytes.length
        | .pending => 0) = p.channel.buffer.toList.length := by
    simp only [Channel.receive]
    split
    · simp
    · split
      · split <;> simp
      · simp; omega
  simp only [receive]
  split
  · simp [Poll.delivered]
  · have := taken (p.faults.allowance.elim size fun (left, _) => min size left)
    split <;> simp_all [held, Poll.delivered]

end Pipe
end NoiseLink.Memory
