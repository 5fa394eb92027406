import NoiseLink.Event
import NoiseLink.Failure
import NoiseLink.Scenario.Names

/-! Where a scenario takes place: a world, objects in it by name, and what the library reports while a
step is answered. The scenario goes on after steps that fail. -/
namespace NoiseLink.Scenario

structure Scene (ω ο : Type) where
  world : ω
  objects : Names ο := []
  /-- What was reported during the step at hand, last first. -/
  reported : List Event := []

/-- Objects that leave a trace in the world when they are dropped. -/
class Droppable (ο : Type) (ω : outParam Type) where
  release : ο → ω → ω

/-- What a step answers, and what was reported during it. -/
structure Outcome (α : Type) where
  answer : Except Failure α
  events : List Event

abbrev Play (ω ο : Type) := Attempt (Scene ω ο)

namespace Play

open Attempt

def report (events : List Event) : Play ω ο Unit :=
  modify fun s => { s with reported := events.reverse ++ s.reported }

def reportRotations (before after : CipherState) : Play ω ο Unit :=
  report ((CipherState.rotationsSince before after).map .rotated)

def world : Play ω ο ω := return (← get).world

def change (f : ω → ω) : Play ω ο Unit := modify fun s => { s with world := f s.world }

def operate (operation : ω → α × ω) : Play ω ο α :=
  modifyGet fun s =>
    let (value, world) := operation s.world
    (value, { s with world })

def object? (name : String) : Play ω ο (Option ο) := return (← get).objects.get? name

def object (name : String) : Play ω ο ο := do require (← object? name)

/-- Puts an object in the place of one that it takes over. -/
def put (name : String) (object : ο) : Play ω ο Unit :=
  modify fun s => { s with objects := s.objects.insert name object }

def consume (name : String) : Play ω ο Unit :=
  modify fun s => { s with objects := s.objects.erase name }

def dropObject [Droppable ο ω] (name : String) : Play ω ο Unit := do
  if let some object ← object? name then
    consume name
    change (Droppable.release object)

/-- Stores a new object; one of that name is dropped. -/
def store [Droppable ο ω] (name : String) (object : ο) : Play ω ο Unit := do
  dropObject name
  put name object

def outcome (step : Play ω ο α) (s : Scene ω ο) : Outcome α × Scene ω ο :=
  let (answer, s) := step.run { s with reported := [] }
  (⟨answer, s.reported.reverse⟩, s)

/-- Answers steps one after another, the first in a world without objects. -/
def outcomes (steps : List (Play ω ο α)) (world : ω) : List (Outcome α) :=
  (steps.foldl (fun (answered, s) step =>
    let (outcome, s) := outcome step s
    (outcome :: answered, s)) (([], { world }) : List (Outcome α) × Scene ω ο)).1.reverse

end Play
end NoiseLink.Scenario
