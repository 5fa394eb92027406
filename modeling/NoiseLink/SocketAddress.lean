import NoiseLink.Decimal

/-! Addresses of sockets: an Internet address and a port. Reading takes the whole text, and admits no
leading zeros in the parts of an address of version 4. -/
namespace NoiseLink

structure Ipv4 where
  octets : List Nat
  length_octets : octets.length = 4
deriving DecidableEq

structure Ipv6 where
  groups : List Nat
  length_groups : groups.length = 8
deriving DecidableEq

inductive IpAddress where
  | v4 (address : Ipv4)
  | v6 (address : Ipv6) (scope : Nat)
deriving DecidableEq

structure SocketAddress where
  ip : IpAddress
  port : Nat
deriving DecidableEq

namespace Ipv4

def text (a : Ipv4) : String := ".".intercalate (a.octets.map toString)

/-- The address that stands for all of a machine's own. -/
def unspecified : Ipv4 := ⟨[0, 0, 0, 0], rfl⟩

end Ipv4

namespace Ipv6

def hexText (groups : List Nat) : String :=
  ":".intercalate (groups.map fun g => String.ofList (Nat.toDigits 16 g))

def zeros (groups : List Nat) : Nat := (groups.takeWhile (· = 0)).length

/-- Where the longest run of zeros starts, the first of several, and how long it is. -/
def longestRun (groups : List Nat) : Nat × Nat :=
  (List.range groups.length).foldl (fun best start =>
    let length := zeros (groups.drop start)
    if length > best.2 then (start, length) else best) (0, 0)

/-- The groups in hexadecimal, with the longest run of two zeros or more left out; an address that
stands for one of version 4 ends like it. -/
def text (a : Ipv6) : String :=
  match a.groups with
  | [0, 0, 0, 0, 0, 0xffff, high, low] =>
    "::ffff:" ++ ".".intercalate ([high / 256, high % 256, low / 256, low % 256].map toString)
  | groups =>
    let (start, length) := longestRun groups
    if length > 1 then
      hexText (groups.take start) ++ "::" ++ hexText (groups.drop (start + length))
    else hexText groups

end Ipv6

def IpAddress.text : IpAddress → String
  | v4 address => address.text
  | v6 address scope => if scope = 0 then s!"[{address.text}]" else s!"[{address.text}%{scope}]"

/-- The address with another text in place of its port. -/
def SocketAddress.textWithPort (a : SocketAddress) (port : String) : String := s!"{a.ip.text}:{port}"

def SocketAddress.text (a : SocketAddress) : String := a.textWithPort (toString a.port)

namespace SocketAddress

/-- Takes a value from the front of a text, or fails and takes nothing. -/
abbrev Reader (α : Type) := StateT (List Char) Option α

namespace Reader

def char (c : Char) : Reader Unit
  | [] => none
  | d :: rest => if d = c then some ((), rest) else none

def digitValue? (radix : Nat) (c : Char) : Option Nat :=
  let value :=
    if c.isDigit then c.toNat - '0'.toNat
    else if 'a' ≤ c ∧ c ≤ 'f' then c.toNat - 'a'.toNat + 10
    else if 'A' ≤ c ∧ c ≤ 'F' then c.toNat - 'A'.toNat + 10
    else radix
  if value < radix then some value else none

/-- All the digits at the front of a text, as a number below a limit. -/
def number (radix limit : Nat) (maxDigits : Option Nat) (leadingZeros : Bool) : Reader Nat := fun text =>
  let isDigit (c : Char) := (digitValue? radix c).isSome
  let digits := text.takeWhile isDigit
  let value := digits.foldl (fun value c => radix * value + (digitValue? radix c).getD 0) 0
  if digits = [] then none
  else if maxDigits.any (· < digits.length) then none
  else if !leadingZeros && digits.length > 1 && digits.headD '0' = '0' then none
  else if value < limit then some (value, text.dropWhile isDigit)
  else none

def ipv4 : Reader Ipv4 := do
  let octet := number 10 256 (some 3) false
  let a ← octet
  char '.'
  let b ← octet
  char '.'
  let c ← octet
  char '.'
  let d ← octet
  return ⟨[a, b, c, d], rfl⟩

/-- Reads something that stands behind a colon, unless it is the first. -/
def separated (first : Bool) (item : Reader α) : Reader α := do
  if !first then char ':'
  item

/-- Up to `limit` groups between colons, of which the last two may be written as an address of version
4; tells whether they were. -/
def groups (first : Bool) : Nat → List Char → List Nat × Bool × List Char
  | 0, text => ([], false, text)
  | limit + 1, text =>
    match if limit = 0 then none else separated first ipv4 text with
    | some (⟨[a, b, c, d], _⟩, rest) => ([256 * a + b, 256 * c + d], true, rest)
    | _ =>
      match separated first (number 16 65536 (some 4) true) text with
      | some (group, rest) =>
        let (more, embedded, rest) := groups false limit rest
        (group :: more, embedded, rest)
      | none => ([], false, text)

/-- Eight groups, or fewer with two colons in place of the zeros that are missing. -/
def ipv6 : Reader Ipv6 := do
  let (head, embedded, rest) := groups true 8 (← get)
  set rest
  if full : head.length = 8 then return ⟨head, full⟩
  if embedded then failure
  char ':'
  char ':'
  let (tail, _, rest) := groups true (7 - head.length) (← get)
  set rest
  let all := head ++ List.replicate (8 - head.length - tail.length) 0 ++ tail
  if h : all.length = 8 then return ⟨all, h⟩ else failure

def port : Reader Nat := do
  char ':'
  number 10 65536 none true

def scope : Reader Nat := do
  char '%'
  number 10 (1 <<< 32) none true

def bracketed : Reader IpAddress := do
  char '['
  let address ← ipv6
  let scope ← scope <|> pure 0
  char ']'
  return .v6 address scope

def socketAddress : Reader SocketAddress := do
  let ip ← (IpAddress.v4 <$> ipv4) <|> bracketed
  return ⟨ip, ← port⟩

end Reader

def read? (text : String) : Option SocketAddress := do
  let (address, rest) ← Reader.socketAddress text.toList
  if rest = [] then some address else none

end SocketAddress
end NoiseLink
