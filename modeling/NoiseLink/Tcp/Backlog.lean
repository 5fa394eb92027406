import NoiseLink.Tcp.Socket

/-! The ends that wait at a listener until they are accepted. The listener learns of the first in
the pause after its arrival; from then on it accepts until it finds that nobody waits. -/
namespace NoiseLink.Tcp

structure Backlog where
  /-- First come, first. -/
  waiting : List Nat := []
  /-- How many pauses there were when an end arrived, if one did since nobody waited. -/
  alert : Option Nat := none

namespace Backlog

def arrive (b : Backlog) (socket : Nat) (s : Sockets) : Backlog :=
  { waiting := b.waiting ++ [socket], alert := b.alert <|> some s.pauses }

/-- Whether the listener knows that somebody waits. -/
def noticed (b : Backlog) (s : Sockets) : Bool := b.alert.any (· < s.pauses)

/-- Accepts the end that has waited longest. -/
def accept? (b : Backlog) : Option (Nat × Backlog) :=
  match b.waiting with
  | [] => none
  | socket :: waiting => some (socket, { b with waiting })

/-- Turns all away, as dropping the listener does. -/
def refuse (b : Backlog) (s : Sockets) : Sockets :=
  b.waiting.foldl (fun s socket => s.refuse socket) s

end Backlog
end NoiseLink.Tcp
