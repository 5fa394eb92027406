import NoiseLink.Upgrade

/-! Accepting connections. Raw connections are taken as they arrive and upgraded side by side, so a
peer that stalls holds up nobody else. A handshake under way is driven only when it was woken,
in the order of waking; what remains woken when a call returns is driven by the next. -/
namespace NoiseLink

/-- A handshake under way on the streams at `port`. -/
structure Pending (ρ : Type) where
  id : Nat
  address : String
  port : ρ
  upgrade : Upgrade

structure Listener (ρ : Type) where
  config : Config
  /-- Connections that arrive while this many handshakes are under way are dropped. -/
  maxHandshakes : Nat
  pending : List (Pending ρ) := []
  /-- The handshakes to drive next, first woken first. -/
  woken : List Nat := []
  begun : Nat := 0

/-- What a raw listener hands over: a connection and the address it comes from, or a failure. -/
abbrev Arrival (ρ : Type) := Except NetworkError (String × ρ)

/-- The streams at the ports of connections. Bytes that arrive for a handshake wake it. -/
structure Ports (ω ρ : Type) where
  sink : ρ → Sink ω
  source : Nat → ρ → Source ω
  drop : ρ → ω → ω

namespace Listener

def defaultMaxHandshakes : Nat := 128

def wake (l : Listener ρ) (id : Nat) : Listener ρ :=
  if l.pending.any (·.id = id) && !l.woken.contains id then { l with woken := l.woken ++ [id] }
  else l

/-- Wakes the handshakes whose deadline has passed, earliest deadline first. -/
def expire (l : Listener ρ) (now : Nanoseconds) : Listener ρ :=
  let due := l.pending.filterMap fun p => do
    let deadline ← p.upgrade.deadline
    if deadline ≤ now then some (deadline, p.id) else none
  (due.mergeSort fun a b => a.1 ≤ b.1).foldl (fun l entry => l.wake entry.2) l

/-- Begins a handshake on a raw connection and queues it for its first attempt. -/
def enroll (l : Listener ρ) (address : String) (port : ρ) (ephemeral : PrivateKey) : Listener ρ :=
  { l with
    pending := l.pending ++ [⟨l.begun, address, port, Upgrade.listener l.config ephemeral⟩]
    woken := l.woken ++ [l.begun]
    begun := l.begun + 1 }

def remove (l : Listener ρ) (id : Nat) : Listener ρ :=
  { l with pending := l.pending.filter (·.id ≠ id) }

def keep (l : Listener ρ) (p : Pending ρ) : Listener ρ :=
  { l with pending := l.pending.map fun q => if q.id = p.id then p else q }

inductive Outcome (ρ : Type) where
  | pending
  | accepted (address : String) (port : ρ) (connection : Connection)
  | failed (cause : NetworkError)
  /-- The generator ran out before a handshake could begin. -/
  | exhausted

/-- Everything a call to accept leaves behind. -/
structure Result (ω ρ : Type) where
  outcome : Outcome ρ
  listener : Listener ρ
  generator : Generator
  arrivals : List (Arrival ρ)
  state : ω
  events : List Event

/-- The fresh key of a handshake comes from a generator of its own, so that handshakes cannot
influence each other's keys. -/
def ephemeral? (generator : Generator) : Option PrivateKey × Generator :=
  match generator.key? with
  | some (key, rest) => ((PrivateKey.generate? (Generator.ofKey key)).map Prod.fst, rest)
  | none => (none, generator)

/-- Takes every raw connection that has arrived, then drives woken handshakes until one succeeds;
after each that fails, takes arrivals again. -/
def accept (ports : Ports ω ρ) (now : Nanoseconds) (l : Listener ρ) (generator : Generator)
    (arrivals : List (Arrival ρ)) (w : ω) (events : List Event) : Result ω ρ :=
  match arrivals with
  | .error cause :: arrivals => ⟨.failed cause, l, generator, arrivals, w, events⟩
  | .ok (address, port) :: arrivals =>
    if l.pending.length ≥ l.maxHandshakes then
      accept ports now l generator arrivals (ports.drop port w) (events ++ [.handshakeLimit address])
    else
      match ephemeral? generator with
      | (none, generator) => ⟨.exhausted, l, generator, arrivals, ports.drop port w, events⟩
      | (some ephemeral, generator) =>
        accept ports now (l.enroll address port ephemeral) generator arrivals w events
  | [] =>
    match _queue : l.woken with
    | [] => ⟨.pending, l, generator, [], w, events⟩
    | id :: woken =>
      let l := { l with woken }
      match l.pending.find? (·.id = id) with
      | none => accept ports now l generator [] w events
      | some p =>
        match p.upgrade.poll (ports.sink p.port) (ports.source id p.port) now w with
        | (.pending, upgrade, w) => accept ports now (l.keep { p with upgrade }) generator [] w events
        | (.ready (.ok connection), _, w) =>
          ⟨.accepted p.address p.port connection, l.remove id, generator, [], w,
            events ++ [.listenerCompleted connection.remoteStatic]⟩
        | (.ready (.error error), _, w) =>
          accept ports now (l.remove id) generator [] (ports.drop p.port w)
            (events ++ [.upgradeFailed error p.address])
termination_by 2 * arrivals.length + l.woken.length
decreasing_by all_goals simp_all [enroll, keep, remove] <;> omega

end Listener
end NoiseLink
