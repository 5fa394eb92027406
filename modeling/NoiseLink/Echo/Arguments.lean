import NoiseLink.Decimal
import NoiseLink.Terminal

/-! The command line of the echo program. Options take one value each, attached with an equals sign or
as the next argument; a value that starts with a hyphen has to be attached. What an argument
completes is checked before the argument itself, unless the argument is unknown. -/
namespace NoiseLink.Echo

def programName : String := "commonware-brontide-echo"

inductive Flag where
  | me
  | peer
  | messages
  | handshakeTimeout
deriving DecidableEq

namespace Flag

def all : List Flag := [me, peer, messages, handshakeTimeout]

def name : Flag → String
  | me => "me"
  | peer => "peer"
  | messages => "messages"
  | handshakeTimeout => "handshake-timeout"

def ofName? (name : String) : Option Flag := all.find? (·.name = name)

def usage (flag : Flag) : String := s!"--{flag.name} <{flag.name}>"

def explanation : Flag → String
  | me => ""
  | peer => "Dial <seed>@<address> instead of listening"
  | messages => "[default: 100]"
  | handshakeTimeout => "Seconds allowed for the handshake [default: 15]"

end Flag

structure Arguments where
  /-- The own identity: a seed and a port. -/
  me : String
  /-- The identity to dial: a seed and an address. -/
  peer : Option String
  messages : Nat
  /-- In seconds. -/
  handshakeTimeout : Nat

/-- Why the arguments are refused. -/
inductive Refusal where
  | missing
  | unexpected (argument : String)
  | valueRequired (flag : Flag)
  | repeated (flag : Flag)
  | invalidValue (value : String) (flag : Flag) (reason : Decimal.Invalid)
  /-- A value was attached to the flag that asks for help. -/
  | unneededValue (value : String)
  /-- Help was asked for. -/
  | help

namespace Refusal

open Terminal (visible)

/-- What is said about a refusal. What the arguments have to show is shown as it is. -/
def text : Refusal → String
  | missing => "error: the following required arguments were not provided:"
  | unexpected argument => s!"error: unexpected argument '{visible argument}' found"
  | valueRequired flag => s!"error: a value is required for '{flag.usage}' but none was supplied"
  | repeated flag => s!"error: the argument '{flag.usage}' cannot be used multiple times"
  | invalidValue value flag reason =>
    s!"error: invalid value '{visible value}' for '{flag.usage}': {reason.message}"
  | unneededValue value =>
    s!"error: unexpected value '{visible value}' for '--help' found; no more were expected"
  | help => ""

def message (r : Refusal) : String := Terminal.firstLine r.text

end Refusal

/-- Where explanations start, counted from the start of a flag: two columns behind the widest flag. -/
def explanationColumn : Nat := (Flag.all.map fun flag => flag.usage.length).foldl max 0 + 2

/-- A line of help: the flag, filled up to the column of explanations. -/
def helpLine (margin flag explanation : String) : String :=
  margin ++ flag ++ String.ofList (List.replicate (explanationColumn - flag.length) ' ') ++ explanation

def helpLines : List String :=
  ["echo messages over an encrypted and authenticated connection", "",
    s!"Usage: {programName} [OPTIONS] {Flag.me.usage}", "", "Options:"]
    ++ Flag.all.map (fun flag => helpLine "      " flag.usage flag.explanation)
    ++ [helpLine "  -h, " "--help" "Print help"]

structure Reading where
  me : Option String := none
  peer : Option String := none
  messages : Option Nat := none
  handshakeTimeout : Option Nat := none
  /-- The last flag, if it was given without a value, and the value that followed it. -/
  open? : Option (Flag × Option String) := none

namespace Reading

/-- Numbers of 64 bits. -/
def numberLimit : Nat := 1 <<< 64

def once (flag : Flag) (earlier : Option α) : Except Refusal Unit :=
  if earlier.isSome then .error (.repeated flag) else .ok ()

def assign (r : Reading) (flag : Flag) (value : String) : Except Refusal Reading :=
  let number : Except Refusal Nat :=
    (Decimal.read numberLimit value).mapError (Refusal.invalidValue value flag)
  match flag with
  | .me => do
    once flag r.me
    return { r with me := some value }
  | .peer => do
    once flag r.peer
    return { r with peer := some value }
  | .messages => do
    once flag r.messages
    return { r with messages := some (← number) }
  | .handshakeTimeout => do
    once flag r.handshakeTimeout
    return { r with handshakeTimeout := some (← number) }

def complete (r : Reading) : Except Refusal Reading :=
  match r.open? with
  | none => .ok r
  | some (flag, none) => .error (.valueRequired flag)
  | some (flag, some value) => { r with open? := none }.assign flag value

def help (r : Reading) : Except Refusal Reading := do
  discard r.complete
  throw .help

/-- Reads an argument that starts with two hyphens. -/
def long (r : Reading) (body : List Char) : Except Refusal Reading :=
  let name := String.ofList (body.takeWhile (· ≠ '='))
  let attached := match body.dropWhile (· ≠ '=') with
    | [] => none
    | _ :: value => some (String.ofList value)
  match Flag.ofName? name, attached with
  | some flag, some value => do (← r.complete).assign flag value
  | some flag, none => do return { ← r.complete with open? := some (flag, none) }
  | none, _ =>
    if name = "help" then
      match attached with
      | some value => .error (.unneededValue value)
      | none => r.help
    else .error (.unexpected ("--" ++ name))

/-- Reads an argument that takes no part in anything unless a flag waits for it. -/
def plain (r : Reading) (argument : String) : Except Refusal Reading :=
  match r.open? with
  | some (flag, none) => .ok { r with open? := some (flag, some argument) }
  | _ => .error (.unexpected argument)

/-- Reads all arguments. After two hyphens alone nothing is an option, and nothing else is expected. -/
def readAll (r : Reading) : List String → Except Refusal Reading
  | [] => r.complete
  | argument :: rest => do
    match argument.toList with
    | ['-', '-'] =>
      match rest with
      | [] => r.complete
      | next :: _ => throw (.unexpected next)
    | '-' :: '-' :: body => readAll (← r.long body) rest
    | '-' :: 'h' :: _ => readAll (← r.help) rest
    | '-' :: c :: _ => throw (.unexpected (String.ofList ['-', c]))
    | _ => readAll (← r.plain argument) rest

end Reading

def Arguments.parse (arguments : List String) : Except Refusal Arguments := do
  let r ← Reading.readAll {} arguments
  match r.me with
  | none => throw .missing
  | some me =>
    return ⟨me, r.peer, r.messages.getD 100, r.handshakeTimeout.getD 15⟩

end NoiseLink.Echo
