import NoiseLink.Wire

/-! How a step of a scenario fails: with an error of the library or of its byte streams, by a broken
precondition, or because the step does not fit what is there. -/
namespace NoiseLink

/-- A precondition whose breach ends the program. -/
inductive Fault where
  | zeroReadLimit
  | exhausted
  | zeroCapacity
  | assertion (condition : String)
deriving DecidableEq

def Fault.message : Fault → String
  | zeroReadLimit => "max_read must be positive"
  | exhausted => "rng exhausted"
  | zeroCapacity => "capacity must be greater than zero"
  | assertion condition => s!"assertion failed: {condition}"

inductive Failure where
  | error (cause : Error)
  | network (cause : NetworkError)
  | fault (cause : Fault)
  /-- No such object, or one of another type or state. -/
  | absent
  | actLength
deriving DecidableEq

namespace Failure

def name : Failure → String
  | error cause => cause.name
  | network cause => cause.name
  | fault _ => "Panic"
  | absent => "InvalidState"
  | actLength => "BadInput"

def message : Failure → String
  | error cause => cause.message
  | network cause => cause.message
  | fault cause => cause.message
  | absent => ""
  | actLength => "act length"

end Failure

/-- A step on a state. One that fails keeps what it has changed so far, so steps look up all they
need before they change anything. -/
abbrev Attempt (σ : Type) := ExceptT Failure (StateM σ)

namespace Attempt

def absent : Attempt σ α := throw .absent

def require : Option α → Attempt σ α
  | some value => pure value
  | none => absent

def check : Except Error α → Attempt σ α
  | .ok value => pure value
  | .error cause => throw (.error cause)

/-- The value of a completed call on a connection. -/
def finish : Poll (Except Error α) → Attempt σ (Poll α)
  | .ready (.ok value) => pure (.ready value)
  | .ready (.error cause) => throw (.error cause)
  | .pending => pure .pending

/-- The value of a completed call on a stream. -/
def finishRaw : Poll (Except NetworkError α) → Attempt σ (Poll α)
  | .ready (.ok value) => pure (.ready value)
  | .ready (.error cause) => throw (.network cause)
  | .pending => pure .pending

end Attempt
end NoiseLink
