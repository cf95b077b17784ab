import EngineCatalog.Json.Fault
import EngineCatalog.Text.Utf8

/-!
# Writing JSON

The written form of a value is compact: no white space, the members of an object in the order in
which the value has them, which is the order of their names.

* `writeText` — a text between quotes. The quote, the backslash and the control characters below
  U+0020 are escaped, the first in two characters where JSON has such a form; all else stands for
  itself in UTF-8.
* `writeNumber` — a whole number in its decimal digits, a floating-point number as `floatText`.
* `write` — a value. Lists and objects are written from their first item on, and from each further
  item on with the comma before it.
-/

namespace EngineCatalog.Json

open Text

/-- The bytes of a text of ASCII characters. -/
def asciiBytes (chars : List Char) : Bytes :=
  chars.map fun c => UInt8.ofNat c.toNat

/-- A digit in base sixteen, in lower case. -/
def hexDigitByte (n : Nat) : UInt8 :=
  if n < 10 then UInt8.ofNat (0x30 + n) else UInt8.ofNat (0x61 + (n - 10))

/-- A character of a quoted text. -/
def escapedChar (c : Char) : Bytes :=
  match c with
  | '"' => [0x5c, 0x22]
  | '\\' => [0x5c, 0x5c]
  | '\n' => [0x5c, 0x6e]
  | '\r' => [0x5c, 0x72]
  | '\t' => [0x5c, 0x74]
  | '\x08' => [0x5c, 0x62]
  | '\x0c' => [0x5c, 0x66]
  | c =>
    if c.toNat < 0x20 then
      [0x5c, 0x75, 0x30, 0x30, hexDigitByte (c.toNat / 16), hexDigitByte (c.toNat % 16)]
    else String.utf8EncodeChar c

/-- The characters of a quoted text and its closing quote. -/
def quotedTail : List Char → Bytes
  | [] => [0x22]
  | c :: rest => escapedChar c ++ quotedTail rest

/-- A text between quotes. -/
def writeText (text : String) : Bytes :=
  0x22 :: quotedTail text.toList

/-- A whole number. -/
def writeInt (n : Int) : Bytes :=
  let digits := asciiBytes (Nat.toDigits 10 n.natAbs)
  if n < 0 then 0x2d :: digits else digits

/-- A number. -/
def writeNumber : Number → Bytes
  | .int n => writeInt n
  | .float x => encode (floatText x)

mutual

/-- The written form of a value. -/
def write : Json → Bytes
  | .null => [0x6e, 0x75, 0x6c, 0x6c]
  | .bool true => [0x74, 0x72, 0x75, 0x65]
  | .bool false => [0x66, 0x61, 0x6c, 0x73, 0x65]
  | .number n => writeNumber n
  | .text s => writeText s
  | .list [] => [0x5b, 0x5d]
  | .list (item :: more) => 0x5b :: (write item ++ writeItems more)
  | .object [] => [0x7b, 0x7d]
  | .object ((name, value) :: more) =>
    0x7b :: (writeText name ++ 0x3a :: (write value ++ writeMembers more))

/-- The further items of a list and its closing bracket. -/
def writeItems : List Json → Bytes
  | [] => [0x5d]
  | item :: more => 0x2c :: (write item ++ writeItems more)

/-- The further members of an object and its closing bracket. -/
def writeMembers : List (String × Json) → Bytes
  | [] => [0x7d]
  | (name, value) :: more => 0x2c :: (writeText name ++ 0x3a :: (write value ++ writeMembers more))

end

end EngineCatalog.Json
