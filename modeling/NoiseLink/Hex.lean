import NoiseLink.Bytes

/-! Hexadecimal text. Writing is lower case; reading takes a text two UTF-8 bytes at a time, and each
piece has to begin and end between characters and to be a number that fits a byte. -/
namespace NoiseLink.Hex

def digits : List Char := "0123456789abcdef".toList

def digit (value : Nat) : Char := digits.getD value '0'

def encodeByte (byte : UInt8) : List Char := [digit (byte.toNat / 16), digit (byte.toNat % 16)]

def encode (bytes : Bytes) : String := String.ofList (bytes.flatMap encodeByte)

/-- The value of a digit of either case, by its code. -/
def digitValue? (code : UInt8) : Option Nat :=
  if 0x30 ≤ code ∧ code ≤ 0x39 then some (code.toNat - 0x30)
  else if 0x61 ≤ code ∧ code ≤ 0x66 then some (code.toNat - 0x61 + 10)
  else if 0x41 ≤ code ∧ code ≤ 0x46 then some (code.toNat - 0x41 + 10)
  else none

/-- Reads digits behind a number that was read so far, as long as the number fits a byte. -/
def readDigits? (value : Nat) : Bytes → Option Nat
  | [] => some value
  | code :: rest => do
    let digit ← digitValue? code
    if 16 * value + digit < 256 then readDigits? (16 * value + digit) rest else none

/-- What follows a plus sign, unless nothing does. -/
def unsigned : Bytes → Bytes
  | sign :: code :: rest => if sign = 0x2b then code :: rest else sign :: code :: rest
  | text => text

/-- Reads a number that fits a byte. A plus sign may stand in front. -/
def readByte? (text : Bytes) : Option UInt8 :=
  if text = [] then none else (readDigits? 0 (unsigned text)).map UInt8.ofNat

/-- Whether a character or the end of the text comes next, and not a byte that continues a
character. -/
def betweenCharacters : Bytes → Bool
  | [] => true
  | byte :: _ => byte < 0x80 || 0xc0 ≤ byte

def decodeBytes? : Bytes → Option Bytes
  | [] => some []
  | [_] => none
  | high :: low :: rest =>
    if betweenCharacters (high :: low :: rest) && betweenCharacters rest then do
      let value ← readByte? [high, low]
      let values ← decodeBytes? rest
      return value :: values
    else none

def decode? (text : String) : Option Bytes := decodeBytes? (Bytes.ofText text)

/-- The characters that layout may put between digits. -/
def isLayout (c : Char) : Bool := c = '\t' || c = '\n' || c = '\r' || c = ' '

/-- The characters of a text without its layout. -/
def bare (text : String) : List Char := text.toList.filter fun c => !isLayout c

def dropMarker : List Char → List Char
  | '0' :: 'x' :: rest => rest
  | text => text

/-- Reads hexadecimal text that may be laid out with blanks and marked with one `0x`. -/
def decodeFormatted? (text : String) : Option Bytes :=
  decode? (String.ofList (dropMarker (bare text)))

end NoiseLink.Hex
