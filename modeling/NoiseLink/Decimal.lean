/-! Reading unsigned decimal numbers of bounded size. A plus sign may stand in front. -/
namespace NoiseLink.Decimal

/-- Why a text is not a number. -/
inductive Invalid where
  | empty
  | digit
  | overflow
deriving DecidableEq

namespace Invalid

def name : Invalid → String
  | empty => "Empty"
  | digit => "InvalidDigit"
  | overflow => "PosOverflow"

def message : Invalid → String
  | empty => "cannot parse integer from empty string"
  | digit => "invalid digit found in string"
  | overflow => "number too large to fit in target type"

def describe (i : Invalid) : String := s!"ParseIntError \x7b kind: {i.name} \x7d"

end Invalid

def digit? (c : Char) : Option Nat := if c.isDigit then some (c.toNat - '0'.toNat) else none

/-- Reads digits after a number that was read so far. The first character that is no digit, or with
which the number leaves its range, decides how reading fails. -/
def readDigits (limit : Nat) (value : Nat) : List Char → Except Invalid Nat
  | [] => .ok value
  | c :: rest =>
    match digit? c with
    | none => .error .digit
    | some d =>
      if 10 * value + d < limit then readDigits limit (10 * value + d) rest else .error .overflow

def read (limit : Nat) (text : String) : Except Invalid Nat :=
  match text.toList with
  | [] => .error .empty
  | ['+'] => .error .digit
  | '+' :: rest => readDigits limit 0 rest
  | rest => readDigits limit 0 rest

end NoiseLink.Decimal
