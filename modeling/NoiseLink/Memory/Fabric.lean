import NoiseLink.Listener
import NoiseLink.Memory.Pipe
import NoiseLink.SocketAddress

/-! The in-memory network that everything of a scenario shares: a clock, the pipes, the networks with
their listeners. Sending on a pipe, closing it and moving the clock wake the handshakes that wait
for it. -/
namespace NoiseLink.Memory

structure Port where
  sink : Nat
  source : Nat
deriving DecidableEq

/-- A network; nobody can reach a listener of another one. -/
structure Network where
  maxRead : Option Nat
  dials : Nat := 0

/-- A listener at its address, with its generator and what has arrived for it. -/
structure Bound where
  network : Nat
  address : SocketAddress
  listener : Listener Port
  generator : Generator
  arrivals : List (Arrival Port) := []
  /-- Whether it still holds its address. -/
  attached : Bool := true

structure Fabric where
  now : Nanoseconds := 0
  pipes : Array Pipe := #[]
  networks : Array Network := #[]
  listeners : Array Bound := #[]

namespace Fabric

def setPipe (f : Fabric) (i : Nat) (p : Pipe) : Fabric :=
  { f with pipes := f.pipes.setIfInBounds i p }

def addPipe (f : Fabric) (p : Pipe) : Nat × Fabric := (f.pipes.size, { f with pipes := f.pipes.push p })

def wake (f : Fabric) : Option Waiter → Fabric
  | some (.handshake listener id) =>
    { f with listeners := f.listeners.modify listener fun b =>
        { b with listener := b.listener.wake id } }
  | _ => f

/-- Ends a pipe, as dropping its sink does. -/
def shut (f : Fabric) (i : Nat) : Fabric :=
  match f.pipes[i]? with
  | some p => (f.setPipe i p.shut.2).wake p.shut.1
  | none => f

/-- The sending end of a pipe. A send that stalled stays so. -/
def sink (i : Nat) : Sink Fabric where
  send bytes f :=
    match f.pipes[i]? with
    | none => (.pending, f)
    | some p =>
      match p.send bytes with
      | (.ready (.ok woken), p) => (.ready (.ok ()), (f.setPipe i p).wake woken)
      | (.ready (.error cause), p) => (.ready (.error cause), f.setPipe i p)
      | (.pending, p) => (.pending, f.setPipe i p)
  resume f := (.pending, f)
  close f :=
    match f.pipes[i]? with
    | none => (.pending, f)
    | some p =>
      match p.close with
      | (.ok woken, p) => (.ready (.ok ()), (f.setPipe i p).wake woken)
      | (.error cause, p) => (.ready (.error cause), f.setPipe i p)

def held (f : Fabric) (i : Nat) : Nat := (f.pipes[i]?.map Pipe.held).getD 0

def receive (i : Nat) (who : Waiter) (size : Nat) (f : Fabric) :
    Poll (Except NetworkError Bytes) × Fabric :=
  match f.pipes[i]? with
  | none => (.pending, f)
  | some p => ((p.receive who size).1, f.setPipe i (p.receive who size).2)

theorem held_receive (i : Nat) (who : Waiter) (size : Nat) (f : Fabric) :
    (receive i who size f).2.held i + (receive i who size f).1.delivered = f.held i := by
  simp only [receive, held]
  split
  · rename_i h
    simp [h, Poll.delivered]
  · rename_i p h
    obtain ⟨inside, rfl⟩ := Array.getElem?_eq_some_iff.1 h
    simpa [setPipe, inside] using f.pipes[i].held_receive who size

/-- The receiving end of a pipe, for one who waits when it is empty. -/
def source (i : Nat) (who : Waiter) : Source Fabric where
  receive := receive i who
  supply f := f.held i
  supply_le size f := by
    have := held_receive i who size f
    omega
  supply_lt size f byte bytes rest h := by
    have taken := held_receive i who size f
    rw [h] at taken
    simp only [Poll.delivered, List.length_cons] at taken
    omega

def ports (listener : Nat) : Ports Fabric Port where
  sink port := sink port.sink
  source id port := source port.source (.handshake listener id)
  drop port f := f.shut port.sink

/-- Moves the clock; handshakes whose deadline has come are woken. -/
def advance (f : Fabric) (time : Nanoseconds) : Fabric :=
  let now := f.now + time
  { f with now, listeners := f.listeners.map fun b => { b with listener := b.listener.expire now } }

def addNetwork (f : Fabric) (maxRead : Option Nat) : Nat × Fabric :=
  (f.networks.size, { f with networks := f.networks.push { maxRead } })

def holder? (f : Fabric) (network : Nat) (address : SocketAddress) : Option Nat :=
  f.listeners.findIdx? fun b => b.attached && b.network == network && b.address == address

/-- Puts a listener at an address that nobody holds. -/
def bind (f : Fabric) (network : Nat) (address : SocketAddress) (listener : Listener Port)
    (generator : Generator) : Except NetworkError (Nat × Fabric) :=
  match f.holder? network address with
  | some _ => .error .bindFailed
  | none => .ok (f.listeners.size,
      { f with listeners := f.listeners.push { network, address, listener, generator } })

def deliver (f : Fabric) (listener : Nat) (arrival : Arrival Port) : Fabric :=
  { f with listeners := f.listeners.modify listener fun b =>
      { b with arrivals := b.arrivals ++ [arrival] } }

/-- Where the connections of a network seem to come from, by their number. -/
def origin (dials : Nat) : String := "10.0.0.1:" ++ toString (50000 + dials)

/-- Makes a connection to an address: a pipe for either direction, whose far ends are queued at the
listener. -/
def connect (f : Fabric) (network : Nat) (address : SocketAddress) :
    Except NetworkError (Port × Fabric) :=
  match f.holder? network address, f.networks[network]? with
  | some listener, some n =>
    let pipe : Pipe := { channel := { maxRead := n.maxRead } }
    let (out, f) := f.addPipe pipe
    let (back, f) := f.addPipe pipe
    let f := { f with networks := f.networks.setIfInBounds network { n with dials := n.dials + 1 } }
    .ok (⟨out, back⟩, f.deliver listener (.ok (origin n.dials, ⟨back, out⟩)))
  | _, _ => .error .connectionFailed

def accept (f : Fabric) (i : Nat) : Option (Listener.Outcome Port × List Event × Fabric) :=
  f.listeners[i]?.map fun b =>
    let result := b.listener.accept (ports i) f.now b.generator b.arrivals f []
    (result.outcome, result.events,
      { result.state with listeners := result.state.listeners.modify i fun b =>
          { b with
            listener := result.listener
            generator := result.generator
            arrivals := result.arrivals } })

/-- Gives a listener's address free and drops whatever it has not handed out. -/
def unbind (f : Fabric) (i : Nat) : Fabric :=
  match f.listeners[i]? with
  | none => f
  | some b =>
    let waiting := b.arrivals.filterMap fun
      | .ok (_, port) => some port
      | .error _ => none
    let ports := b.listener.pending.map (·.port) ++ waiting
    ports.foldl (fun f port => f.shut port.sink)
      { f with listeners := f.listeners.modify i fun b =>
          { b with attached := false, arrivals := [], listener := { b.listener with pending := [] } } }

end Fabric
end NoiseLink.Memory
