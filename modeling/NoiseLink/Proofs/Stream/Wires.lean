import NoiseLink.Proofs.Stream.Keeps
import NoiseLink.Proofs.Stream.Line
import NoiseLink.Upgrade

/-! Two streams in opposite directions, as the two sides of a connection hold them. They have nothing to
do with each other, and each takes whatever is sent on it as long as it is open. Two pipes of the
in-memory network that show no faults are such a pair. -/
namespace NoiseLink

/-- What either side has, the dialer's first. -/
def Role.choose {α : Type} (dials listens : α) : Role → α
  | dialer => dials
  | listener => listens

def Role.other : Role → Role
  | dialer => listener
  | listener => dialer

@[simp] theorem Role.other_other (role : Role) : role.other.other = role := by cases role <;> rfl

theorem Role.both (role : Role) {P : Role → Prop} (this : P role) (that : P role.other) (any : Role) :
    P any := by
  cases role <;> cases any <;> assumption

/-- The ends that either side holds: it sends on one stream and receives from the other. -/
structure Wires (ω : Type) where
  sink : Role → Sink ω
  source : Role → Source ω

/-- Working wires. What comes in for a side is what the other side has sent, and neither direction is
touched by what happens on the other. What is sent is taken if there is room for it: where the capacity is
limited, no more bytes can be under way. -/
structure Wires.Apart (wires : Wires ω) (capacity : Option Nat) (incoming : Role → ω → Option Tape) :
    Prop where
  line : ∀ role, Line (wires.sink role) (wires.source role.other) (incoming role.other)
  sends : ∀ role bytes {w t}, incoming role.other w = some t → t.ending = .quiet →
    (∀ most ∈ capacity, t.bytes.length + bytes.length ≤ most) →
    ∃ after, (wires.sink role).send bytes w = (.ready (.ok ()), after)
  supply : ∀ role {w t}, incoming role w = some t → (wires.source role).supply w = t.bytes.length
  prompt : ∀ role, (wires.source role).Prompt (incoming role)
  sink_keeps : ∀ role, (wires.sink role).Keeps (incoming role)
  source_keeps : ∀ role, (wires.source role).Keeps (incoming role.other)

variable {ω : Type}

namespace Wires

variable {wires : Wires ω} {capacity : Option Nat} {incoming : Role → ω → Option Tape}

theorem Apart.back (apart : wires.Apart capacity incoming) (role : Role) :
    Line (wires.sink role.other) (wires.source role) (incoming role) := by
  have line := apart.line role.other
  rwa [Role.other_other] at line

theorem Apart.hands (apart : wires.Apart capacity incoming) (role : Role) :
    (wires.source role).Hands (incoming role) :=
  (apart.back role).hands

theorem Apart.sent (apart : wires.Apart capacity incoming) (role : Role) {w : ω} {t : Tape}
    (holds : incoming role.other w = some t) (quiet : t.ending = .quiet) (bytes : Bytes)
    (room : ∀ most ∈ capacity, t.bytes.length + bytes.length ≤ most) :
    ∃ after, (wires.sink role).send bytes w = (.ready (.ok ()), after) ∧
      incoming role.other after = some (t.follow bytes .quiet) ∧
      incoming role after = incoming role w := by
  obtain ⟨after, sent⟩ := apart.sends role bytes holds quiet room
  have kept := (apart.sink_keeps role).send bytes w
  rw [sent] at kept
  exact ⟨after, sent, (apart.line role).sent holds quiet sent, kept⟩

end Wires

/-- Leaving out worlds from which no other is reached. -/
theorem Line.restrict {sink : Sink ω} {source : Source ω} {tape : ω → Option Tape}
    (line : Line sink source tape) (kept : ω → Bool)
    (receives : ∀ size w, kept w = true → kept (source.receive size w).2 = true)
    (sends : ∀ bytes w, kept w = true → kept (sink.send bytes w).2 = true)
    (closes : ∀ w, kept w = true → kept (sink.close w).2 = true) :
    Line sink source fun w => if kept w then tape w else none where
  hands := line.hands.restrict kept receives
  sent {w after t bytes} holds quiet answer := by
    split at holds
    · rename_i inside
      have still := sends bytes w inside
      rw [answer] at still
      rw [if_pos still]
      exact line.sent holds quiet answer
    · cases holds
  closed {w after t} holds sound answer := by
    split at holds
    · rename_i inside
      have still := closes w inside
      rw [answer] at still
      rw [if_pos still]
      exact line.closed holds sound answer
    · cases holds

namespace Memory.Fabric

theorem getElem?_setPipe_of_ne {i j : Nat} (apart : i ≠ j) (f : Fabric) (p : Pipe) :
    (f.setPipe i p).pipes[j]? = f.pipes[j]? := by
  simp [setPipe, apart]

theorem sink_keeps {i j : Nat} (apart : i ≠ j) : (sink i).Keeps fun f => f.pipes[j]? where
  send bytes f := by
    simp only [sink]
    split
    · rfl
    · split <;> simp [getElem?_setPipe_of_ne apart]
  close f := by
    simp only [sink]
    split
    · rfl
    · split <;> simp [getElem?_setPipe_of_ne apart]

theorem source_keeps {i j : Nat} (apart : i ≠ j) (who : Waiter) :
    (source i who).Keeps fun f => f.pipes[j]? := by
  intro size f
  change (receive i who size f).2.pipes[j]? = f.pipes[j]?
  rw [receive]
  split
  · rfl
  · exact getElem?_setPipe_of_ne apart ..

def obliging (i : Nat) (f : Fabric) : Bool := f.pipes[i]?.any fun p => p.faults.sends.isEmpty

/-- The tape of a pipe that takes whatever is sent, and does not break off. -/
def reliable? (i : Nat) (f : Fabric) : Option Tape := if f.obliging i then f.line? i else none

theorem obliging_of_faults {i : Nat} {f g : Fabric} {p q : Pipe} (there : f.pipes[i]? = some p)
    (later : g.pipes[i]? = some q) (same : q.faults.sends = p.faults.sends)
    (obliging : f.obliging i = true) : g.obliging i = true := by
  simp only [Fabric.obliging, there, Option.any_some] at obliging
  simp only [Fabric.obliging, later, Option.any_some, same, obliging]

theorem obliging_receive (i : Nat) (who : Waiter) (size : Nat) (f : Fabric)
    (obliging : f.obliging i = true) : (receive i who size f).2.obliging i = true := by
  cases there : f.pipes[i]? with
  | none => simp [Fabric.obliging, there] at obliging
  | some p =>
    simp only [receive, there]
    refine obliging_of_faults there (getElem?_setPipe there _) ?_ obliging
    rw [Pipe.receive]
    split
    · rfl
    · simp only
      split <;> rfl

theorem obliging_send (i : Nat) (bytes : Bytes) (f : Fabric) (obliging : f.obliging i = true) :
    ((sink i).send bytes f).2.obliging i = true := by
  cases there : f.pipes[i]? with
  | none => simp [Fabric.obliging, there] at obliging
  | some p =>
    have same : (p.send bytes).2.faults = p.faults := by
      rw [Pipe.send]
      split
      · rfl
      · rfl
      · split <;> rfl
    simp only [sink, there]
    split <;> rename_i answer <;> rw [answer] at same <;>
      refine obliging_of_faults there ?_ (congrArg Faults.sends same) obliging <;>
      simp [getElem?_setPipe there]

theorem obliging_close (i : Nat) (f : Fabric) (obliging : f.obliging i = true) :
    ((sink i).close f).2.obliging i = true := by
  cases there : f.pipes[i]? with
  | none => simp [Fabric.obliging, there] at obliging
  | some p =>
    have same : p.close.2.faults = p.faults := by
      rw [Pipe.close]
      split <;> rfl
    simp only [sink, there]
    split <;> rename_i answer <;> rw [answer] at same <;>
      refine obliging_of_faults there ?_ (congrArg Faults.sends same) obliging <;>
      simp [getElem?_setPipe there]

theorem line_reliable (i : Nat) (who : Waiter) : Line (sink i) (source i who) (reliable? i) :=
  (line_pipe i who).restrict (obliging i) (obliging_receive i who) (obliging_send i)
    (obliging_close i)

theorem prompt_reliable (i : Nat) (who : Waiter) : (source i who).Prompt (reliable? i) := by
  rintro f t ⟨size, before, positive, holds, waits⟩
  refine prompt_line i who f t ⟨size, before, positive, ?_, waits⟩
  rw [reliable?] at holds
  split at holds
  · exact holds
  · cases holds

/-- What is sent on a reliable pipe that is still open is taken. -/
theorem send_reliable {i : Nat} {f : Fabric} {t : Tape} (holds : f.reliable? i = some t)
    (quiet : t.ending = .quiet) (bytes : Bytes) :
    ∃ after, (sink i).send bytes f = (.ready (.ok ()), after) := by
  rw [reliable?] at holds
  split at holds
  · rename_i obliging
    obtain ⟨p, there, -, -, rfl⟩ := line?_eq_some_iff.1 holds
    have willing : p.faults.sends = [] := by simpa [Fabric.obliging, there] using obliging
    have opened : p.channel.closed = false := by
      rw [← Bool.not_eq_true]
      intro closed
      simp [Channel.tape, closed] at quiet
    simp [sink, there, Pipe.send, willing, Channel.send, opened]
  · cases holds

theorem supply_reliable {i : Nat} (who : Waiter) {f : Fabric} {t : Tape}
    (holds : f.reliable? i = some t) : (source i who).supply f = t.bytes.length := by
  rw [reliable?] at holds
  split at holds
  · obtain ⟨p, there, -, -, rfl⟩ := line?_eq_some_iff.1 holds
    change f.held i = _
    simp [held, there, Pipe.held, Channel.tape]
  · cases holds

theorem reliable?_of_channel {i : Nat} {c : Channel Waiter} {f : Fabric} (positive : c.maxRead ≠ some 0)
    (there : f.pipes[i]? = some { channel := c }) : f.reliable? i = some c.tape := by
  have obliging : f.obliging i = true := by simp [Fabric.obliging, there]
  rw [reliable?, if_pos obliging]
  exact line?_eq_some_iff.2 ⟨_, there, rfl, positive, rfl⟩

theorem reliable?_of_fresh {i : Nat} {maxRead : Option Nat} {f : Fabric} (positive : maxRead ≠ some 0)
    (there : f.pipes[i]? = some { channel := { maxRead } }) : f.reliable? i = some ⟨[], .quiet⟩ :=
  reliable?_of_channel positive there

theorem reliable?_congr {i : Nat} {f g : Fabric} (same : f.pipes[i]? = g.pipes[i]?) :
    f.reliable? i = g.reliable? i := by
  rw [reliable?, reliable?, Fabric.obliging, Fabric.obliging, line?, line?, steady, steady, tape?,
    tape?, same]

def wires (pipe : Role → Nat) (who : Role → Waiter) : Wires Fabric where
  sink role := sink (pipe role)
  source role := source (pipe role.other) (who role)

theorem source_wires_other (pipe : Role → Nat) (who : Role → Waiter) (role : Role) :
    (wires pipe who).source role.other = source (pipe role) (who role.other) := by
  simp only [wires, Role.other_other]

theorem apart_wires {pipe : Role → Nat} (distinct : pipe .dialer ≠ pipe .listener)
    (who : Role → Waiter) : (wires pipe who).Apart none fun role f => f.reliable? (pipe role.other) := by
  have ne role : pipe role ≠ pipe role.other := by
    cases role
    · exact distinct
    · exact distinct.symm
  constructor
  · intro role
    cases role
    · exact line_reliable (pipe .dialer) (who .listener)
    · exact line_reliable (pipe .listener) (who .dialer)
  · intro role bytes f t holds quiet _
    rw [role.other_other] at holds
    exact send_reliable holds quiet bytes
  · intro role f t holds
    exact supply_reliable (who role) holds
  · intro role
    exact prompt_reliable (pipe role.other) (who role)
  · intro role
    constructor
    · intro bytes f
      exact reliable?_congr ((sink_keeps (ne role)).send bytes f)
    · intro f
      exact reliable?_congr ((sink_keeps (ne role)).close f)
  · intro role size f
    rw [role.other_other]
    exact reliable?_congr (source_keeps (ne role).symm (who role) size f)

end Memory.Fabric
end NoiseLink
