import Mathlib.Logic.Function.Basic
import NoiseLink.Proofs.Handshake.Conversation
import NoiseLink.Proofs.Link.RoundTrip

/-! Two sides that meet over two streams. Each is polled until its upgrade is complete, and from then on
sends and receives, whether the other side is done or not. -/
namespace NoiseLink

open Receiver (Completed)

inductive Party where
  | upgrading (u : Upgrade)
  | connected (c : Connection)
  | failed (error : Error)

namespace Party

/-- A dialer begins unless the key that it dials is its own. -/
def dial (config : Config) (peer : PublicKey) (fresh : PrivateKey) : Party :=
  match Upgrade.checkPeer config peer with
  | .ok () => .upgrading (.dialer config peer fresh)
  | .error error => .failed error

def polled : Poll (Except Error Connection) → Upgrade → Party
  | .ready (.ok c), _ => .connected c
  | .ready (.error error), _ => .failed error
  | .pending, u => .upgrading u

end Party

structure Record (ω : Type) where
  /-- The number of bytes that its upgrade has taken from its stream. -/
  taken : Nat := 0
  /-- The bytes that its calls to send were given. -/
  sent : Bytes := []
  /-- The frames that they make. -/
  frames : List Bytes := []
  closed : Bool := false
  /-- Its calls to receive, answered or not. -/
  attempts : List Call := []
  done : List (Completed ω) := []

structure Meeting (ω : Type) where
  party : Role → Party
  record : Role → Record ω
  world : ω

variable {ω : Type}

/-- What a side may do once it is connected: a call to send that succeeds, or an attempt to receive. -/
inductive Acts (sink : Sink ω) (source : Source ω) :
    Connection → Record ω → ω → Connection → Record ω → ω → Prop where
  | send {c r w message sender world} :
      c.sender.send sink message w = (.ready (.ok ()), sender, world) →
      Acts sink source c r w { c with sender }
        { r with sent := r.sent ++ message, frames := r.frames ++ [message] } world
  | write {c r w bytes size sender world} :
      c.sender.write sink bytes w = (.ready (.ok size), sender, world) →
      Acts sink source c r w { c with sender }
        { r with
          sent := r.sent ++ bytes
          frames := r.frames ++ Bytes.chunks maxPayloadLength bytes } world
  | close {c r w sender world} : c.sender.close sink w = (.ready (.ok ()), sender, world) →
      Acts sink source c r w { c with sender } { r with closed := true } world
  | waits {c r w call receiver world} :
      c.receiver.attempt source call w = (.pending, receiver, world) →
      Acts sink source c r w { c with receiver } { r with attempts := r.attempts ++ [call] } world
  | answers {c r w call answer receiver world} :
      c.receiver.attempt source call w = (.ready answer, receiver, world) →
      Acts sink source c r w { c with receiver }
        { r with
          attempts := r.attempts ++ [call]
          done := r.done ++ [⟨call, answer, receiver, world⟩] } world

/-- Polling an exchange would end it, or move a byte on one of the streams. -/
def Wires.Moves (wires : Wires ω) (role : Role) (exchange : Exchange Session) (w : ω) : Prop :=
  ∃ answer next after, exchange.poll (wires.sink role) (wires.source role) w = (answer, next, after) ∧
    (answer ≠ .pending ∨ ∃ side, (wires.source side).supply after ≠ (wires.source side).supply w)

namespace Meeting

def start (config : Role → Config) (fresh : Role → PrivateKey) (w : ω) : Meeting ω where
  party
    | .dialer => .dial (config .dialer) (config .listener).staticKey.publicKey (fresh .dialer)
    | .listener => .upgrading (.listener (config .listener) (fresh .listener))
  record _ := {}
  world := w

def set (m : Meeting ω) (role : Role) (party : Party) (record : Record ω) (world : ω) : Meeting ω where
  party := Function.update m.party role party
  record := Function.update m.record role record
  world

/-- One step: an upgrade is polled before its deadline, or a side that is connected acts. -/
inductive Step (wires : Wires ω) : Meeting ω → Meeting ω → Prop where
  | poll {m role u now answer next world} : m.party role = .upgrading u →
      now < u.deadline.getD (now + u.timeout) →
      u.poll (wires.sink role) (wires.source role) now m.world = (answer, next, world) →
      Step wires m (m.set role (.polled answer next)
        { m.record role with
          taken := (m.record role).taken +
            ((wires.source role).supply m.world - (wires.source role).supply world) } world)
  | act {m role c next record world} : m.party role = .connected c →
      Acts (wires.sink role) (wires.source role) c (m.record role) m.world next record world →
      Step wires m (m.set role (.connected next) record world)

/-- The meetings that come about from two sides that have just begun. -/
inductive Reached (wires : Wires ω) (config : Role → Config) (fresh : Role → PrivateKey) (w : ω) :
    Meeting ω → Prop where
  | start : Reached wires config fresh w (start config fresh w)
  | step {m next} : Reached wires config fresh w m → Step wires m next →
      Reached wires config fresh w next

def Stuck (wires : Wires ω) (m : Meeting ω) : Prop :=
  ∀ role u, m.party role = .upgrading u → ¬ wires.Moves role u.exchange m.world

def direction (m : Meeting ω) (role : Role) (sender : Sender) (receiver : Receiver) : Link ω where
  sender
  receiver
  world := m.world
  sent := (m.record role).sent
  frames := (m.record role).frames
  closed := (m.record role).closed
  attempts := (m.record role.other).attempts
  done := (m.record role.other).done

section Set

variable (m : Meeting ω) (role : Role) (party : Party) (record : Record ω) (world : ω)

@[simp] theorem party_set : (m.set role party record world).party role = party :=
  Function.update_self ..

@[simp] theorem record_set : (m.set role party record world).record role = record :=
  Function.update_self ..

@[simp] theorem party_set_other : (m.set role party record world).party role.other =
    m.party role.other := by
  cases role <;> rfl

@[simp] theorem record_set_other : (m.set role party record world).record role.other =
    m.record role.other := by
  cases role <;> rfl

end Set

end Meeting

namespace Acts

variable {sink : Sink ω} {source : Source ω} {tape : ω → Option Tape} {c next : Connection}
  {r record : Record ω} {w world : ω}

theorem same (acts : Acts sink source c r w next record world) :
    next.remoteStatic = c.remoteStatic ∧ record.taken = r.taken := by
  cases acts <;> exact ⟨rfl, rfl⟩

/-- The direction in which a side sends goes on as a link, whoever is to receive there. -/
theorem outgoing {far : Source ω} (line : Line sink far tape) (keeps : source.Keeps tape)
    (acts : Acts sink source c r w next record world) {receiver : Receiver} {attempts : List Call}
    {done : List (Completed ω)} {payloads : List Bytes}
    (sound : Link.Sound tape payloads
      ⟨c.sender, receiver, w, r.sent, r.frames, r.closed, attempts, done⟩) :
    ∃ others, Link.Sound tape others
      ⟨next.sender, receiver, world, record.sent, record.frames, record.closed, attempts, done⟩ := by
  cases acts with
  | send sent => exact sound.step line (.send sent)
  | write written => exact sound.step line (.write written)
  | close closed => exact sound.step line (.close closed)
  | @waits call _ _ waits =>
    have kept := c.receiver.keeps_attempt keeps call w
    rw [waits] at kept
    exact sound.step line (.elsewhere kept)
  | @answers call _ _ _ answered =>
    have kept := c.receiver.keeps_attempt keeps call w
    rw [answered] at kept
    exact sound.step line (.elsewhere kept)

theorem incoming {far : Sink ω} (line : Line far source tape) (keeps : sink.Keeps tape)
    (acts : Acts sink source c r w next record world) {sender : Sender} {sent : Bytes}
    {frames payloads : List Bytes} {closed : Bool}
    (sound : Link.Sound tape payloads
      ⟨sender, c.receiver, w, sent, frames, closed, r.attempts, r.done⟩) :
    ∃ others, Link.Sound tape others
      ⟨sender, next.receiver, world, sent, frames, closed, record.attempts, record.done⟩ := by
  cases acts with
  | @send message _ _ done =>
    have kept := Sender.keeps_send keeps message c.sender w
    rw [done] at kept
    exact sound.step line (.elsewhere kept)
  | @write bytes _ _ _ done =>
    have kept := Sender.keeps_write keeps bytes c.sender w
    rw [done] at kept
    exact sound.step line (.elsewhere kept)
  | close done =>
    have kept := Sender.keeps_close keeps c.sender w
    rw [done] at kept
    exact sound.step line (.elsewhere kept)
  | waits waits => exact sound.step line (.waits waits)
  | answers answered => exact sound.step line (.answers answered)

end Acts
end NoiseLink
