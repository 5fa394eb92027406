/-! Text for readers that are no terminals. Control characters and escape sequences are taken out;
white space and all characters beyond ASCII stay, unless they stand inside a sequence. -/
namespace NoiseLink.Terminal

/-- What the characters read so far have begun. -/
inductive Mode where
  | plain
  | escape
  /-- An escape sequence of more than one character. -/
  | longEscape
  /-- A control sequence, which ends with its first letter. -/
  | control
  | deviceEntry
  | deviceParameter
  | deviceIntermediate
  /-- A string that lasts until a terminator. -/
  | string
  /-- A command to the terminal's system, which a bell ends. -/
  | command
deriving DecidableEq

namespace Mode

/-- Whether a character holds the byte that terminates strings. -/
def terminates (c : Char) : Bool := (String.utf8EncodeChar c).contains 0x9c

/-- The mode after a character that belongs to no plain text. -/
def next (m : Mode) (c : Char) : Mode :=
  if c = '\x1b' then escape
  else if c = '\x18' ∨ c = '\x1a' then plain
  else
    match m with
    | plain => plain
    | escape =>
      if c = '[' then control
      else if c = ']' then command
      else if c = 'P' then deviceEntry
      else if c = 'X' ∨ c = '^' ∨ c = '_' then string
      else if ' ' ≤ c ∧ c ≤ '/' then longEscape
      else if '0' ≤ c ∧ c ≤ '~' then plain
      else escape
    | longEscape => if '0' ≤ c ∧ c ≤ '~' then plain else longEscape
    | control => if '@' ≤ c ∧ c ≤ '~' then plain else control
    | deviceEntry =>
      if '@' ≤ c ∧ c ≤ '~' then string
      else if '0' ≤ c ∧ c ≤ '?' then deviceParameter
      else if ' ' ≤ c ∧ c ≤ '/' then deviceIntermediate
      else deviceEntry
    | deviceParameter =>
      if '<' ≤ c ∧ c ≤ '~' then string
      else if ' ' ≤ c ∧ c ≤ '/' then deviceIntermediate
      else deviceParameter
    | deviceIntermediate => if '0' ≤ c ∧ c ≤ '~' then string else deviceIntermediate
    | string => if terminates c then plain else string
    | command => if c = '\x07' then plain else command

/-- White space that moves the cursor shows wherever a control character would take effect. -/
def shows (m : Mode) (c : Char) : Bool :=
  match m with
  | plain => c ∈ ['\t', '\n', '\x0c', '\r'] || (' ' ≤ c && c ≠ '\x7f')
  | escape | longEscape | control => c ∈ ['\t', '\n', '\x0c', '\r']
  | _ => false

end Mode

/-- The part of a text that shows. Once a character shows, those after it are taken for plain text up
to one that does not show; what that one finds begun is what the last sequence left open. -/
def visibleFrom (showing : Bool) (m : Mode) : List Char → List Char
  | [] => []
  | c :: rest =>
    if showing && Mode.plain.shows c then
      c :: visibleFrom true (if c.toNat < 0x80 then m else .plain) rest
    else if m.shows c then c :: visibleFrom true (m.next c) rest
    else visibleFrom false (m.next c) rest

/-- What shows of a text. A sequence that the text leaves open ends with it. -/
def visible (text : String) : String := String.ofList (visibleFrom false .plain text.toList)

/-- The first line, without its ending. -/
def firstLine (text : String) : String :=
  let chars := text.toList
  let line := chars.takeWhile (· ≠ '\n')
  if line.length < chars.length ∧ line.getLast? = some '\r' then String.ofList line.dropLast
  else String.ofList line

end NoiseLink.Terminal
