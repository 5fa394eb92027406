import Mathlib.Logic.Relation
import NoiseLink.Proofs.Listener.Authentic

/-! A listener at work, with an account of the raw connections that it has taken from its network. A call
to accept is a number of turns, each of which takes one arrival or drives one handshake. Between any two
turns, and so while no call is under way as well, connections arrive, handshakes are woken and anything
may happen to the streams. -/
namespace NoiseLink

def Pending.raw (p : Pending ρ) : String × ρ := (p.address, p.port)

/-- What has become of a raw connection that is no longer in flight. -/
inductive Fate (ρ : Type) where
  | returned (address : String) (port : ρ) (connection : Connection)
  | failed (address : String) (port : ρ) (error : Error)
  /-- Dropped as it arrived, with the number of handshakes that were in flight. -/
  | turnedAway (address : String) (port : ρ) (inFlight : Nat)

namespace Fate

def raw : Fate ρ → String × ρ
  | returned address port _ | failed address port _ | turnedAway address port _ => (address, port)

def event : Fate ρ → Event
  | returned _ _ connection => .listenerCompleted connection.remoteStatic
  | failed address _ error => .upgradeFailed error address
  | turnedAway address _ _ => .handshakeLimit address

def returned? : Fate ρ → Option (String × ρ × Connection)
  | returned address port connection => some (address, port, connection)
  | failed .. | turnedAway .. => none

/-- Whether there was a reason for it. -/
def Due (ports : Ports ω ρ) (config : Config) (maxHandshakes : Nat) : Fate ρ → Prop
  | returned _ port connection => ports.Settled config port (.ok connection)
  | failed _ port error => ports.Settled config port (.error error)
  | turnedAway _ _ inFlight => inFlight = maxHandshakes

end Fate

namespace Listener.Outcome

def returned : Outcome ρ → List (String × ρ × Connection)
  | accepted address port connection => [(address, port, connection)]
  | pending | failed _ | exhausted => []

def causes : Outcome ρ → List NetworkError
  | failed cause => [cause]
  | pending | accepted .. | exhausted => []

end Listener.Outcome

theorem Listener.exists_draw {generator : Generator} (supplied : (ephemeral? generator).1.isSome) :
    ∃ fresh rest, ephemeral? generator = (some fresh, rest) := by
  obtain ⟨fresh, drawn⟩ := Option.isSome_iff_exists.1 supplied
  exact ⟨fresh, _, Prod.ext drawn rfl⟩

/-- A listener with its generator, what has arrived and was not taken, and the world. -/
structure Reception (ω ρ : Type) where
  listener : Listener ρ
  generator : Generator
  arrivals : List (Arrival ρ)
  world : ω
  /-- The raw connections that were taken from the network. -/
  taken : List (String × ρ) := []
  fates : List (Fate ρ) := []

namespace Reception

open Listener (Outcome)

def inFlight (r : Reception ω ρ) : List (String × ρ) := r.listener.pending.map Pending.raw

/-- One turn of a call, and how the call ends if it ends with it. -/
inductive Turn (ports : Ports ω ρ) (now : Nanoseconds) :
    Reception ω ρ → Option (Outcome ρ) → Reception ω ρ → Prop where
  | broken {r cause rest} : r.arrivals = .error cause :: rest →
      Turn ports now r (some (.failed cause)) { r with arrivals := rest }
  | turnedAway {r address port rest} : r.arrivals = .ok (address, port) :: rest →
      r.listener.maxHandshakes ≤ r.listener.pending.length →
      Turn ports now r none
        { r with
          arrivals := rest
          world := ports.drop port r.world
          taken := r.taken ++ [(address, port)]
          fates := r.fates ++ [.turnedAway address port r.listener.pending.length] }
  | enrolled {r address port rest ephemeral generator} : r.arrivals = .ok (address, port) :: rest →
      r.listener.pending.length < r.listener.maxHandshakes →
      Listener.ephemeral? r.generator = (some ephemeral, generator) →
      Turn ports now r none
        { r with
          listener := r.listener.enroll address port ephemeral
          generator
          arrivals := rest
          taken := r.taken ++ [(address, port)] }
  | rests {r} : r.arrivals = [] → r.listener.woken = [] → Turn ports now r (some .pending) r
  | stale {r id woken} : r.arrivals = [] → r.listener.woken = id :: woken →
      r.listener.pending.find? (·.id = id) = none →
      Turn ports now r none { r with listener := { r.listener with woken } }
  | waits {r id woken p upgrade world} : r.arrivals = [] → r.listener.woken = id :: woken →
      r.listener.pending.find? (·.id = id) = some p →
      p.upgrade.poll (ports.sink p.port) (ports.source id p.port) now r.world =
        (.pending, upgrade, world) →
      Turn ports now r none
        { r with listener := { r.listener with woken }.keep { p with upgrade }, world }
  | returned {r id woken p connection upgrade world} : r.arrivals = [] →
      r.listener.woken = id :: woken → r.listener.pending.find? (·.id = id) = some p →
      p.upgrade.poll (ports.sink p.port) (ports.source id p.port) now r.world =
        (.ready (.ok connection), upgrade, world) →
      Turn ports now r (some (.accepted p.address p.port connection))
        { r with
          listener := { r.listener with woken }.remove id
          world
          fates := r.fates ++ [.returned p.address p.port connection] }
  | failed {r id woken p error upgrade world} : r.arrivals = [] →
      r.listener.woken = id :: woken → r.listener.pending.find? (·.id = id) = some p →
      p.upgrade.poll (ports.sink p.port) (ports.source id p.port) now r.world =
        (.ready (.error error), upgrade, world) →
      Turn ports now r none
        { r with
          listener := { r.listener with woken }.remove id
          world := ports.drop p.port world
          fates := r.fates ++ [.failed p.address p.port error] }

inductive Call (ports : Ports ω ρ) (now : Nanoseconds) :
    Reception ω ρ → Outcome ρ → Reception ω ρ → Prop where
  | ends {r outcome next} : Turn ports now r (some outcome) next → Call ports now r outcome next
  | turn {r middle outcome next} : Turn ports now r none middle → Call ports now middle outcome next →
      Call ports now r outcome next

variable {ω ρ : Type} {ports : Ports ω ρ} {now : Nanoseconds}

/-- Every call consists of turns, unless the generator runs out, and it reports an event for each
connection that it settles. -/
theorem exists_call {l : Listener ρ} {generator : Generator} {arrivals : List (Arrival ρ)} {w : ω}
    {events : List Event} {result : Listener.Result ω ρ}
    (accepted : l.accept ports now generator arrivals w events = result)
    (supplied : result.outcome ≠ .exhausted) (taken : List (String × ρ)) (fates : List (Fate ρ)) :
    ∃ all more, Call ports now ⟨l, generator, arrivals, w, taken, fates⟩ result.outcome
        ⟨result.listener, result.generator, result.arrivals, result.state, all, fates ++ more⟩ ∧
      result.events = events ++ more.map Fate.event := by
  fun_induction Listener.accept ports now l generator arrivals w events generalizing taken fates with
  | case1 l generator w events cause rest =>
    subst accepted
    exact ⟨taken, [], by simpa using .ends (.broken rfl), by simp⟩
  | case2 l generator w events address port rest full ih =>
    obtain ⟨all, more, call, reported⟩ := ih accepted (taken ++ [(address, port)])
      (fates ++ [.turnedAway address port l.pending.length])
    rw [List.append_assoc] at call
    exact ⟨all, _, .turn (.turnedAway rfl full) call, by simp [reported, Fate.event]⟩
  | case3 l generator w events address port rest room drained later =>
    subst accepted
    exact absurd rfl supplied
  | case4 l generator w events address port rest room ephemeral drawn later ih =>
    obtain ⟨all, more, call, reported⟩ := ih accepted (taken ++ [(address, port)]) fates
    exact ⟨all, more, .turn (.enrolled rfl (Nat.lt_of_not_le room) later) call, reported⟩
  | case5 l generator w events queue =>
    subst accepted
    exact ⟨taken, [], by simpa using .ends (.rests rfl queue), by simp⟩
  | case6 l generator w events id woken queue later unknown ih =>
    obtain ⟨all, more, call, reported⟩ := ih accepted taken fates
    exact ⟨all, more, .turn (.stale rfl queue unknown) call, reported⟩
  | case7 l generator w events id woken queue later p found upgrade after waits ih =>
    obtain ⟨all, more, call, reported⟩ := ih accepted taken fates
    exact ⟨all, more, .turn (.waits rfl queue found waits) call, reported⟩
  | case8 l generator w events id woken queue later p found connection upgrade after done =>
    subst accepted
    exact ⟨taken, _, .ends (.returned rfl queue found done), by simp [Fate.event]⟩
  | case9 l generator w events id woken queue later p found error upgrade after broken ih =>
    obtain ⟨all, more, call, reported⟩ := ih accepted taken (fates ++ [.failed p.address p.port error])
    rw [List.append_assoc] at call
    exact ⟨all, _, .turn (.failed rfl queue found broken) call, by simp [reported, Fate.event]⟩

/-- The generator runs out only where no key is left to draw from it after those that were drawn. -/
theorem ephemeral_of_exhausted {l : Listener ρ} {generator : Generator} {arrivals : List (Arrival ρ)} {w : ω}
    {events : List Event} {result : Listener.Result ω ρ}
    (accepted : l.accept ports now generator arrivals w events = result)
    (ended : result.outcome = .exhausted) :
    ∃ before, Relation.ReflTransGen (fun g rest => ∃ fresh, Listener.ephemeral? g = (some fresh, rest))
        generator before ∧ Listener.ephemeral? before = (none, result.generator) := by
  fun_induction Listener.accept ports now l generator arrivals w events with
  | case1 | case5 | case8 =>
    subst accepted
    cases ended
  | case2 _ _ _ _ _ _ _ _ ih | case6 _ _ _ _ _ _ _ _ _ ih => exact ih accepted
  | case3 l generator w events address port rest room drained later =>
    subst accepted
    exact ⟨generator, .refl, later⟩
  | case4 l generator w events address port rest room ephemeral drawn later ih =>
    obtain ⟨before, draws, none⟩ := ih accepted
    exact ⟨before, .head ⟨ephemeral, later⟩ draws, none⟩
  | case7 _ _ _ _ _ _ _ _ _ _ _ _ _ ih | case9 _ _ _ _ _ _ _ _ _ _ _ _ _ _ ih => exact ih accepted

/-- A turn takes the first arrival or none, and what it returns and reports is on the account. -/
theorem Turn.account {r next : Reception ω ρ} {outcome : Option (Outcome ρ)}
    (turn : Turn ports now r outcome next) : ∃ raws more,
      next.taken = r.taken ++ raws ∧ next.fates = r.fates ++ more ∧
      r.arrivals = raws.map .ok ++ ((outcome.elim [] Outcome.causes).map .error ++ next.arrivals) ∧
      more.filterMap Fate.returned? = outcome.elim [] Outcome.returned := by
  cases turn with
  | broken here => exact ⟨[], [], by simp, by simp, here, rfl⟩
  | @turnedAway address port _ here _ =>
    exact ⟨[(address, port)], [.turnedAway ..], rfl, rfl, here, rfl⟩
  | @enrolled address port _ _ _ here _ _ =>
    exact ⟨[(address, port)], [], rfl, by simp, here, rfl⟩
  | rests none _ => exact ⟨[], [], by simp, by simp, rfl, rfl⟩
  | stale none _ _ => exact ⟨[], [], by simp, by simp, rfl, rfl⟩
  | waits none _ _ _ => exact ⟨[], [], by simp, by simp, rfl, rfl⟩
  | @returned _ _ p connection _ _ none _ _ _ =>
    exact ⟨[], [.returned p.address p.port connection], by simp, rfl, rfl, rfl⟩
  | @failed _ _ p error _ _ none _ _ _ =>
    exact ⟨[], [.failed p.address p.port error], by simp, rfl, rfl, rfl⟩

/-- A call takes arrivals in their order and stops at a failure, and it reports no other failure. What
it returns is on the account, and nothing else was returned meanwhile. -/
theorem Call.account {r next : Reception ω ρ} {outcome : Outcome ρ}
    (call : Call ports now r outcome next) : ∃ raws more,
      next.taken = r.taken ++ raws ∧ next.fates = r.fates ++ more ∧
      r.arrivals = raws.map .ok ++ (outcome.causes.map .error ++ next.arrivals) ∧
      more.filterMap Fate.returned? = outcome.returned := by
  induction call with
  | ends last => exact last.account
  | turn first _ ih =>
    obtain ⟨raws, more, taken, settled, order, returns⟩ := first.account
    obtain ⟨others, rest, later, after, behind, gives⟩ := ih
    refine ⟨raws ++ others, more ++ rest, ?_, ?_, ?_, ?_⟩
    · rw [later, taken, List.append_assoc]
    · rw [after, settled, List.append_assoc]
    · simp [order, behind]
    · rw [List.filterMap_append, returns, gives]
      rfl

/-- A call that waits has left no arrival behind and no handshake undriven. -/
theorem Call.idle {r next : Reception ω ρ} (call : Call ports now r .pending next) :
    next.arrivals = [] ∧ next.listener.woken = [] := by
  generalize same : (Outcome.pending : Outcome ρ) = outcome at call
  induction call with
  | ends last =>
    subst same
    cases last with
    | rests none idle => exact ⟨none, idle⟩
  | turn _ _ ih => exact ih same

/-- The moments of a listener: whatever comes before, between and after the turns of its calls. -/
inductive Reached (ports : Ports ω ρ) (config : Config) (maxHandshakes : Nat) :
    Reception ω ρ → Prop where
  | start (generator : Generator) (world : ω) :
      Reached ports config maxHandshakes ⟨{ config, maxHandshakes }, generator, [], world, [], []⟩
  | arrives {r} (arrival : Arrival ρ) : Reached ports config maxHandshakes r →
      Reached ports config maxHandshakes { r with arrivals := r.arrivals ++ [arrival] }
  | wakes {r} (id : Nat) : Reached ports config maxHandshakes r →
      Reached ports config maxHandshakes { r with listener := r.listener.wake id }
  | expires {r} (now : Nanoseconds) : Reached ports config maxHandshakes r →
      Reached ports config maxHandshakes { r with listener := r.listener.expire now }
  | elsewhere {r} (world : ω) : Reached ports config maxHandshakes r →
      Reached ports config maxHandshakes { r with world }
  | turn {r now outcome next} : Reached ports config maxHandshakes r → Turn ports now r outcome next →
      Reached ports config maxHandshakes next

theorem Reached.call {config : Config} {maxHandshakes : Nat} {r next : Reception ω ρ}
    {outcome : Outcome ρ} (reached : Reached ports config maxHandshakes r)
    (call : Call ports now r outcome next) : Reached ports config maxHandshakes next := by
  induction call with
  | ends last => exact reached.turn last
  | turn first _ ih => exact ih (reached.turn first)

end Reception
end NoiseLink
