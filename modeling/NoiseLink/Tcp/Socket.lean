import NoiseLink.ByteQueue
import NoiseLink.Wire

/-! Connected sockets. What one end sends has arrived at the other at once and waits there to be
read, through a buffer that reads ahead. A direction ends when its sender finishes it; an end that is
closed while it has data left to read breaks the connection for its peer. Those who wait for
something to happen learn of it in the next pause, which is when everybody waits. -/
namespace NoiseLink.Tcp

structure Socket where
  /-- What has arrived and was not read yet. -/
  arrived : ByteQueue := {}
  /-- What was read ahead of its receiver. -/
  ahead : ByteQueue := {}
  /-- Nothing more will be sent from here. -/
  finished : Bool := false
  closed : Bool := false
  /-- The peer closed while it had data left to read, which was not noticed yet. -/
  broken : Bool := false
  /-- The peer had no room left for what was sent. -/
  blocked : Bool := false
  /-- How many pauses there were when there was last something new to read. -/
  touched : Nat := 0
deriving Inhabited

/-- All ends. Those of one connection have neighbouring numbers, the even one first. -/
structure Sockets where
  ends : Array Socket := #[]
  pauses : Nat := 0

namespace Sockets

def peer (i : Nat) : Nat := if i % 2 = 0 then i + 1 else i - 1

def get (s : Sockets) (i : Nat) : Socket := s.ends.getD i {}

def update (s : Sockets) (i : Nat) (change : Socket → Socket) : Sockets :=
  { s with ends := s.ends.modify i change }

def pause (s : Sockets) : Sockets := { s with pauses := s.pauses + 1 }

def connect (s : Sockets) : Nat × Sockets :=
  (s.ends.size, { s with ends := (s.ends.push {}).push {} })

/-- Whether there is something to read at an end, or no more to come, and its owner can know. -/
def readable (s : Sockets) (i : Nat) : Bool :=
  let e := s.get i
  (!e.arrived.isEmpty || e.broken || (s.get (peer i)).finished) && e.touched < s.pauses

/-- The most bytes that wait to be read at one end. -/
def capacity : Nat := 4 * 1024 * 1024

/-- Whether an end still has to wait until it can send: one that found no room goes on when at most
a quarter is left to read, or when its connection is over. -/
def stuck (s : Sockets) (i : Nat) : Bool :=
  let e := s.get i
  let p := s.get (peer i)
  e.blocked && !p.closed && !(e.finished && p.finished) && capacity < 4 * p.arrived.length

/-- Puts bytes where the peer of an end can read them. -/
def deliver (i : Nat) (bytes : Bytes) (s : Sockets) : Sockets :=
  s.update (peer i) fun p => { p with arrived := p.arrived.push bytes, touched := s.pauses }

/-- Sends all bytes. What the peer has no room for is waited for in vain. -/
def send (i : Nat) (bytes : Bytes) (s : Sockets) : Poll (Except NetworkError Unit) × Sockets :=
  if bytes.isEmpty then (.ready (.ok ()), s)
  else if s.stuck i then (.ready (.error .timeout), s.pause)
  else if (s.get i).finished || (s.get (peer i)).closed then (.ready (.error .sendFailed), s)
  else
    let room := capacity - (s.get (peer i)).arrived.length
    let blocked := room < bytes.length
    let s := s.update i ({ · with blocked })
    if blocked then (.ready (.error .timeout), (s.deliver i (bytes.take room)).pause)
    else (.ready (.ok ()), s.deliver i bytes)

/-- Ends the direction that starts here. -/
def finish (i : Nat) (s : Sockets) : Sockets :=
  (s.update i ({ · with finished := true })).update (peer i) ({ · with touched := s.pauses })

def close (i : Nat) (s : Sockets) : Sockets :=
  let unread := !(s.get i).arrived.isEmpty
  let s := (s.finish i).update i fun e => { e with closed := true, arrived := {}, ahead := {} }
  if unread then s.update (peer i) ({ · with broken := true }) else s

/-- Closes an end that nobody has accepted, which breaks the connection in any case. -/
def refuse (i : Nat) (s : Sockets) : Sockets :=
  (s.close i).update (peer i) ({ · with broken := true })

def sink (i : Nat) : Sink Sockets where
  send := send i
  resume s := (.ready (.error .timeout), s.pause)
  close s := (.ready (.ok ()), s.finish i)

/-- How a stream reads: how far ahead, and whether it waits for what is not there yet. One that
waits does so in vain. -/
structure Reading where
  ahead : Nat
  waits : Bool

/-- One read: from what was read ahead, else from what has arrived, of which up to a buffer full is
read ahead unless more is asked for. -/
def receive (i : Nat) (reading : Reading) (size : Nat) (s : Sockets) :
    Poll (Except NetworkError Bytes) × Sockets :=
  let e := s.get i
  if size = 0 then (.ready (.ok []), s)
  else if !e.ahead.isEmpty then
    let (bytes, ahead) := e.ahead.take size
    (.ready (.ok bytes), s.update i fun e => { e with ahead })
  else if !e.arrived.isEmpty then
    let (bytes, arrived) := e.arrived.take (max size reading.ahead)
    (.ready (.ok (bytes.take size)),
      s.update i fun e => { e with arrived, ahead := ByteQueue.ofBytes (bytes.drop size) })
  else if e.broken then (.ready (.error .recvFailed), s.update i ({ · with broken := false }))
  else if (s.get (peer i)).finished then (.ready (.ok []), s)
  else if reading.waits then (.ready (.error .timeout), s.pause)
  else (.pending, s)

/-- The number of bytes that an end can still read. -/
def held (s : Sockets) (i : Nat) : Nat := (s.get i).arrived.length + (s.get i).ahead.length

@[simp] theorem held_pause (s : Sockets) (i : Nat) : s.pause.held i = s.held i := rfl

theorem held_update (s : Sockets) (i n : Nat) (change : Socket → Socket)
    (kept : (change (s.get i)).arrived.length + (change (s.get i)).ahead.length + n = s.held i) :
    (s.update i change).held i + n = s.held i := by
  by_cases inside : i < s.ends.size
  · have same : (s.update i change).get i = change (s.get i) := by
      simp [get, update, inside, Array.getElem_modify_self]
    simpa [held, same] using kept
  · have same : (s.update i change).get i = s.get i := by
      simp [get, update, inside]
    have empty : s.held i = 0 := by
      simp [held, get, inside, ByteQueue.length]
    have : (s.update i change).held i = 0 := by simpa [held, same] using empty
    omega

theorem held_receive (i : Nat) (reading : Reading) (size : Nat) (s : Sockets) :
    (receive i reading size s).2.held i + (receive i reading size s).1.delivered = s.held i := by
  simp only [receive]
  split
  · simp [Poll.delivered]
  · split
    · apply held_update
      have := (s.get i).ahead.length_take size
      simp only [Poll.delivered, held]
      omega
    · split
      · rename_i none _
        apply held_update
        have := (s.get i).arrived.length_take (max size reading.ahead)
        have : (s.get i).ahead.length = 0 := by
          have : (s.get i).ahead.toList = [] := (ByteQueue.isEmpty_iff _).1 (by simpa using none)
          simp [← ByteQueue.length_toList, this]
        simp only [Poll.delivered, held, ByteQueue.length_ofBytes, List.length_drop,
          List.length_take]
        omega
      · split
        · exact held_update s i 0 _ (by simp [held])
        · split
          · simp [Poll.delivered]
          · split <;> simp [Poll.delivered]

def source (i : Nat) (reading : Reading) : Source Sockets where
  receive := receive i reading
  supply s := s.held i
  supply_le size s := by
    have := held_receive i reading size s
    omega
  supply_lt size s byte bytes rest h := by
    have taken := held_receive i reading size s
    rw [h] at taken
    simp only [Poll.delivered, List.length_cons] at taken
    omega

theorem peer_ne (i : Nat) : peer i ≠ i := by
  unfold peer
  split <;> omega

theorem get_update_of_ne {i j : Nat} (h : i ≠ j) (s : Sockets) (change : Socket → Socket) :
    (s.update i change).get j = s.get j := by
  by_cases inside : j < s.ends.size
  · simp [get, update, inside, Array.getElem_modify, h]
  · simp [get, update, inside]

theorem held_deliver (i : Nat) (bytes : Bytes) (s : Sockets) :
    (s.deliver i bytes).held i = s.held i := by
  simp [deliver, held, get_update_of_ne (peer_ne i)]

/-- What is sent does not come back by itself. -/
theorem held_send (i : Nat) (bytes : Bytes) (s : Sockets) :
    (send i bytes s).2.held i = s.held i := by
  have marked (blocked : Bool) : (s.update i ({ · with blocked })).held i = s.held i :=
    held_update s i 0 _ (by simp [held])
  simp only [send]
  split
  · rfl
  · split
    · exact held_pause s i
    · split
      · rfl
      · split
        · exact (held_deliver i _ _).trans (marked _)
        · exact (held_deliver i _ _).trans (marked _)

def duplex (i : Nat) (reading : Reading) : Duplex Sockets where
  sink := sink i
  source := source i reading
  supply_send bytes s := Nat.le_of_eq (held_send i bytes s)

end Sockets
end NoiseLink.Tcp
