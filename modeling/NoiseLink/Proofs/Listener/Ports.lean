import NoiseLink.Proofs.Listener.Watch
import NoiseLink.Proofs.Stream.Wires

/-! The ports of the in-memory network. One whose pipes show no faults serves the handshake at it for as
long as the peer listens, and what is done at a port of other pipes does not come into it. -/
namespace NoiseLink.Memory.Fabric

def listens (i : Nat) (f : Fabric) : Bool := (f.reliable? i).any (·.ending = .quiet)

/-- The tape that comes in at a port where whatever is sent is taken. -/
def inlet? (port : Port) (f : Fabric) : Option Tape :=
  if f.listens port.sink then f.reliable? port.source else none

theorem listens_iff {i : Nat} {f : Fabric} :
    f.listens i = true ↔ ∃ t, f.reliable? i = some t ∧ t.ending = .quiet := by
  simp [listens, Option.any_eq_true]

theorem inlet?_eq_some_iff {port : Port} {f : Fabric} {t : Tape} :
    f.inlet? port = some t ↔ f.listens port.sink = true ∧ f.reliable? port.source = some t := by
  simp [inlet?]

theorem inlet?_congr {port : Port} {f g : Fabric} (out : f.pipes[port.sink]? = g.pipes[port.sink]?)
    (back : f.pipes[port.source]? = g.pipes[port.source]?) : f.inlet? port = g.inlet? port := by
  rw [inlet?, inlet?, listens, listens, reliable?_congr out, reliable?_congr back]

theorem shut_keeps {i j : Nat} (apart : i ≠ j) (f : Fabric) : (f.shut i).pipes[j]? = f.pipes[j]? := by
  rw [shut]
  split
  · rw [pipes_wake, getElem?_setPipe_of_ne apart]
  · rfl

/-- Ports that have no pipe in common are apart. -/
theorem apart_ports (listener : Nat) {one two : Port}
    (sinks : two.sink ≠ one.sink ∧ two.sink ≠ one.source)
    (sources : two.source ≠ one.sink ∧ two.source ≠ one.source) :
    (ports listener).Apart two (inlet? one) where
  receives _ size f :=
    inlet?_congr (source_keeps sources.1 _ size f) (source_keeps sources.2 _ size f)
  sends :=
    { send := fun bytes f =>
        inlet?_congr ((sink_keeps sinks.1).send bytes f) ((sink_keeps sinks.2).send bytes f)
      close := fun f => inlet?_congr ((sink_keeps sinks.1).close f) ((sink_keeps sinks.2).close f) }
  resumes _ := rfl
  drops f := inlet?_congr (shut_keeps sinks.1 f) (shut_keeps sinks.2 f)

/-- A port takes whatever is sent, for as long as its peer listens. -/
theorem serves_ports (listener : Nat) {port : Port} (apart : port.sink ≠ port.source) :
    (ports listener).Serves port (inlet? port) (.ok ()) False where
  hands id := by
    refine (line_reliable port.source _).hands.restrict (listens port.sink) fun size f inside => ?_
    rw [listens, reliable?_congr (source_keeps apart.symm _ size f)]
    exact inside
  answers :=
    { send := by
        intro bytes f answer after t holds sent
        obtain ⟨inside, back⟩ := inlet?_eq_some_iff.1 holds
        obtain ⟨out, there, quiet⟩ := listens_iff.1 inside
        obtain ⟨next, taken⟩ := send_reliable there quiet bytes
        have same := sent.symm.trans taken
        cases same
        have follows := (line_reliable port.sink .caller).sent there quiet taken
        have kept := reliable?_congr ((sink_keeps apart).send bytes f)
        rw [taken, back] at kept
        exact ⟨.inr rfl, inlet?_eq_some_iff.2 ⟨listens_iff.2 ⟨_, follows, rfl⟩, kept⟩⟩
      resume := False.elim }

theorem prompt_ports (listener : Nat) (port : Port) : (ports listener).Prompt port (inlet? port) := by
  rintro id f t ⟨size, before, positive, holds, waits⟩
  exact prompt_reliable port.source _ f t
    ⟨size, before, positive, (inlet?_eq_some_iff.1 holds).2, waits⟩

/-- The first poll of a handshake whose conversation ends on what its peer has said before it. -/
theorem poll_of_outcome (listener : Nat) {port : Port} (apart : port.sink ≠ port.source) (id : Nat)
    {config : Config} {fresh : PrivateKey} (now : Nanoseconds) {f : Fabric} {said : Tape}
    {given : List Bytes} {answer : Except Error Session} (heard : f.inlet? port = some said)
    (comes : (Upgrade.listenerExchange config fresh).outcome (.ok ()) said = (given, .ready answer)) :
    ∃ next after,
      (Upgrade.listener config fresh).poll ((ports listener).sink port) ((ports listener).source id port)
        now f = (.ready (answer.map Connection.ofSession), next, after) := by
  have serves := serves_ports listener apart
  refine ⟨_, _, Prod.ext ?_ rfl⟩
  have polled := (Upgrade.proper_listener False config fresh).fst_poll (serves.hands id) serves.answers
    not_false (prompt_ports listener port id) heard
  rw [comes] at polled
  rw [Upgrade.fst_poll, show (Upgrade.listener config fresh).exchange =
    Upgrade.listenerExchange config fresh from rfl, polled]

end NoiseLink.Memory.Fabric
