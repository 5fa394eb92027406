import NoiseLink.Upgrade

/-! How a TCP network treats its sockets, and the settings in words. -/
namespace NoiseLink

/-- A number and its thousandths, millionths and so on, without the zeros at the end: `digits` is how
many decimal digits the fraction has. -/
def decimal (whole fraction digits : Nat) : String :=
  let shown := String.ofList (((List.range digits).map fun i =>
    Nat.digitChar (fraction / Nat.pow 10 (digits - 1 - i) % 10)).reverse.dropWhile (· = '0')).reverse
  if shown.isEmpty then toString whole else s!"{whole}.{shown}"

/-- A duration in the largest unit of which it holds at least one. -/
def Nanoseconds.text (t : Nanoseconds) : String :=
  if t ≥ 1000000000 then decimal (t / 1000000000) (t % 1000000000) 9 ++ "s"
  else if t ≥ 1000000 then decimal (t / 1000000) (t % 1000000) 6 ++ "ms"
  else if t ≥ 1000 then decimal (t / 1000) (t % 1000) 3 ++ "µs"
  else s!"{t}ns"

namespace Tcp

structure Config where
  /-- Whether small writes go out at once; nothing leaves that to the system. -/
  nodelay : Option Bool := some true
  readTimeout : Nanoseconds := .ofSeconds 60
  writeTimeout : Nanoseconds := .ofSeconds 30
  readBufferSize : Nat := 64 * 1024

inductive Setting where
  | nodelay (value : Option Bool)
  | readTimeout (value : Nanoseconds)
  | writeTimeout (value : Nanoseconds)
  | readBufferSize (value : Nat)

namespace Config

def apply (c : Config) : Setting → Config
  | .nodelay value => { c with nodelay := value }
  | .readTimeout value => { c with readTimeout := value }
  | .writeTimeout value => { c with writeTimeout := value }
  | .readBufferSize value => { c with readBufferSize := value }

def ofSettings (settings : List Setting) : Config := settings.foldl apply {}

def describe (c : Config) : String :=
  let nodelay := match c.nodelay with
    | some value => s!"Some({value})"
    | none => "None"
  s!"Config \x7b tcp_nodelay: {nodelay}, read_timeout: {c.readTimeout.text}, " ++
    s!"write_timeout: {c.writeTimeout.text}, read_buffer_size: {c.readBufferSize} \x7d"

/-- A network that is made with this configuration, as logs show it. -/
def describeNetwork (c : Config) : String := s!"Network \x7b cfg: {c.describe} \x7d"

end Config
end Tcp
end NoiseLink
