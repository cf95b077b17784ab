import EngineCatalog.Json.Fault
import EngineCatalog.Text.Utf8

/-!
# The words of a JSON text

Reading takes bytes off the front of a text and gives back what they say together with the bytes
that are left. This module reads what has no parts: white space, words, quoted texts and numbers.

* `readText` — a quoted text after its opening quote. Escapes are resolved first; whether the bytes
  are UTF-8 is asked once the closing quote is found.
* `readNumber` — a number. It is whole if it is written without point and power and fits into 64
  bits, with or without sign; minus zero and all others are floating-point numbers.
* `skipText`, `skipNumber` — the same forms passed over without a value: no escape is paired, no
  encoding is checked, and no number is too large.

The floating-point value is computed as the significand's first digits, as many as fit into 64
bits, times or divided by one power of ten. The result may differ from the nearest number by one
place, as every reader of these payloads has it.
-/

namespace EngineCatalog.Json

open Text

/-- What a reader makes of the front of some bytes, and the bytes after it. -/
abbrev Reading (α : Type) : Type := Except Fault (α × Bytes)

/-- A reading with its result replaced. -/
def Reading.map {α β : Type} (f : α → β) (reading : Reading α) : Reading β :=
  match reading with
  | .ok (result, rest) => .ok (f result, rest)
  | .error fault => .error fault

/-! ## Bytes with a meaning -/

/-- A byte of white space. -/
def isSpaceByte (b : UInt8) : Bool :=
  b = 0x20 || b = 0x0a || b = 0x09 || b = 0x0d

/-- The bytes from the first one on that is no white space. -/
def skipSpace (bytes : Bytes) : Bytes :=
  bytes.dropWhile isSpaceByte

/-- The byte of a decimal digit. -/
def isDigitByte (b : UInt8) : Bool :=
  0x30 ≤ b && b ≤ 0x39

/-- The value of a decimal digit. -/
def digitOf (b : UInt8) : Nat :=
  b.toNat - 0x30

/-- The byte of the quote. -/
def quoteByte : UInt8 := 0x22

/-- The byte of the backslash. -/
def backslashByte : UInt8 := 0x5c

/-! ## Words -/

/-- The rest of one of the three words, after its first letter. -/
def readWord {α : Type} (value : α) : Bytes → Bytes → Reading α
  | [], bytes => .ok (value, bytes)
  | _ :: _, [] => .error .endInValue
  | expected :: more, b :: rest =>
    if b = expected then readWord value more rest else .error .expectedWord

/-- The letters of `null` after the first. -/
def nullWord : Bytes := [0x75, 0x6c, 0x6c]

/-- The letters of `true` after the first. -/
def trueWord : Bytes := [0x72, 0x75, 0x65]

/-- The letters of `false` after the first. -/
def falseWord : Bytes := [0x61, 0x6c, 0x73, 0x65]

/-! ## Quoted texts -/

/-- The byte that an escape of one letter stands for. -/
def simpleEscape? (letter : UInt8) : Option UInt8 :=
  match letter with
  | 0x22 => some 0x22
  | 0x5c => some 0x5c
  | 0x2f => some 0x2f
  | 0x62 => some 0x08
  | 0x66 => some 0x0c
  | 0x6e => some 0x0a
  | 0x72 => some 0x0d
  | 0x74 => some 0x09
  | _ => none

/-- The value of a hexadecimal digit of either case. -/
def hexValue? (b : UInt8) : Option Nat :=
  let n := b.toNat
  if 0x30 ≤ n ∧ n ≤ 0x39 then some (n - 0x30)
  else if 0x41 ≤ n ∧ n ≤ 0x46 then some (n - 0x41 + 10)
  else if 0x61 ≤ n ∧ n ≤ 0x66 then some (n - 0x61 + 10)
  else none

/-- The number of four hexadecimal digits; fewer than four bytes are the end of the text. -/
def fourHex : Bytes → Except Fault Nat
  | a :: b :: c :: d :: _ =>
    match hexValue? a, hexValue? b, hexValue? c, hexValue? d with
    | some a, some b, some c, some d => .ok (a * 4096 + b * 256 + c * 16 + d)
    | _, _, _, _ => .error .invalidEscape
  | _ => .error .endInText

/-- The number is the first half of a surrogate pair. -/
def isLeading (n : Nat) : Bool := 0xd800 ≤ n && n ≤ 0xdbff

/-- The number is the second half of a surrogate pair. -/
def isTrailing (n : Nat) : Bool := 0xdc00 ≤ n && n ≤ 0xdfff

/-- The bytes of the character with a number. -/
def numberBytes (n : Nat) : Bytes :=
  String.utf8EncodeChar (Char.ofNat n)

/-- What an escape by number stands for, and how many bytes it takes; the bytes given are those
after the `u`. A leading surrogate needs a second escape with its other half right behind it. -/
def numberEscape (bytes : Bytes) : Except Fault (Bytes × Nat) := do
  let n ← fourHex bytes
  if isTrailing n then .error .loneSurrogate
  else if !isLeading n then .ok (numberBytes n, 4)
  else
    match bytes.drop 4 with
    | [] => .error .endInText
    | b :: rest =>
      if b ≠ backslashByte then .error .surrogateUnpaired
      else
        match rest with
        | [] => .error .endInText
        | u :: digits =>
          if u ≠ 0x75 then .error .surrogateUnpaired
          else do
            let second ← fourHex digits
            if isTrailing second then
              .ok (numberBytes ((n - 0xd800) * 1024 + (second - 0xdc00) + 0x10000), 10)
            else .error .loneSurrogate

/-- What an escape stands for, and how many bytes it takes; the bytes given are those after the
backslash. -/
def readEscape : Bytes → Except Fault (Bytes × Nat)
  | [] => .error .endInText
  | letter :: rest =>
    match simpleEscape? letter with
    | some b => .ok ([b], 1)
    | none =>
      if letter = 0x75 then do
        let (bytes, length) ← numberEscape rest
        .ok (bytes, length + 1)
      else .error .invalidEscape

/-- The bytes of a quoted text up to its closing quote, after `skip` bytes that belong to an escape
already read. -/
def textBytes (skip : Nat) : Bytes → Reading Bytes
  | [] => .error .endInText
  | b :: rest =>
    match skip with
    | skip + 1 => textBytes skip rest
    | 0 =>
      if b = quoteByte then .ok ([], rest)
      else if b = backslashByte then
        match readEscape rest with
        | .error fault => .error fault
        | .ok (bytes, length) => (textBytes length rest).map (bytes ++ ·)
      else if b < 0x20 then .error .controlCharacter
      else (textBytes 0 rest).map (b :: ·)

/-- A quoted text after its opening quote. -/
def readText (bytes : Bytes) : Reading String :=
  match textBytes 0 bytes with
  | .error fault => .error fault
  | .ok (raw, rest) =>
    match decode? raw with
    | some content => .ok (content, rest)
    | none => .error .invalidUtf8

/-- How many bytes an escape takes that is passed over. -/
def skipEscape : Bytes → Except Fault Nat
  | [] => .error .endInText
  | letter :: rest =>
    if (simpleEscape? letter).isSome then .ok 1
    else if letter = 0x75 then do
      let _ ← fourHex rest
      .ok 5
    else .error .invalidEscape

/-- The bytes after a quoted text that is passed over. -/
def skipText (skip : Nat) : Bytes → Except Fault Bytes
  | [] => .error .endInText
  | b :: rest =>
    match skip with
    | skip + 1 => skipText skip rest
    | 0 =>
      if b = quoteByte then .ok rest
      else if b = backslashByte then
        match skipEscape rest with
        | .error fault => .error fault
        | .ok length => skipText length rest
      else if b < 0x20 then .error .controlCharacter
      else skipText 0 rest

/-! ## Numbers -/

/-- The digits at the front, and the bytes after them. -/
def splitDigits (bytes : Bytes) : Bytes × Bytes :=
  (bytes.takeWhile isDigitByte, bytes.dropWhile isDigitByte)

/-- The number that digits go on to write after `value`, as far as 64 bits hold it, and how many
digits are left over from there. -/
def takeSignificant (value : Nat) : Bytes → Nat × Nat
  | [] => (value, 0)
  | digit :: more =>
    if value * 10 + digitOf digit < Nat.pow 2 64 then takeSignificant (value * 10 + digitOf digit) more
    else (value, more.length + 1)

/-- A power of ten as a floating-point number. -/
def powerOfTen (n : Nat) : Float :=
  Float.ofScientific 1 false n

/-- A number divided by a power of ten, in steps that a floating-point number can hold. -/
def divideByPower (x : Float) (n : Nat) : Float :=
  if n ≤ 308 then x / powerOfTen n
  else if x == 0 then x
  else divideByPower (x / powerOfTen 308) (n - 308)
  termination_by n

/-- The floating-point number with a significand and a power of ten. -/
def scale (negative : Bool) (significand : Nat) (power : Int) : Except Fault Float :=
  let x := (UInt64.ofNat significand).toFloat
  let signed (y : Float) : Float := if negative then -y else y
  if power < 0 then .ok (signed (divideByPower x power.natAbs))
  else if power ≤ 308 then
    let y := x * powerOfTen power.toNat
    if y.isInf then .error .numberOutOfRange else .ok (signed y)
  else if significand = 0 then .ok (signed x)
  else .error .numberOutOfRange

/-- The bound of the powers of ten that are added up; beyond it there is no number but zero. -/
def powerBound : Nat := Nat.pow 2 31

/-- A number from its power of ten on, the `e` already taken. -/
def readPower (negative : Bool) (significand : Nat) (power : Int) (bytes : Bytes) :
    Reading Number :=
  let (down, bytes) :=
    match bytes with
    | 0x2b :: rest => (false, rest)
    | 0x2d :: rest => (true, rest)
    | _ => (false, bytes)
  match bytes with
  | [] => .error .endInValue
  | b :: _ =>
    if !isDigitByte b then .error .invalidNumber
    else
      let (digits, rest) := splitDigits bytes
      let written := digits.foldl (fun n digit => n * 10 + digitOf digit) 0
      if powerBound ≤ written then
        if significand ≠ 0 ∧ !down then .error .numberOutOfRange
        else .ok (.float (if negative then -0.0 else 0.0), rest)
      else
        match scale negative significand (power + if down then -(written : Int) else written) with
        | .ok x => .ok (.float x, rest)
        | .error fault => .error fault

/-- A floating-point number from what may follow its digits on. -/
def finishFloat (negative : Bool) (significand : Nat) (power : Int) (bytes : Bytes) :
    Reading Number :=
  let plain (bytes : Bytes) : Reading Number :=
    match scale negative significand power with
    | .ok x => .ok (.float x, bytes)
    | .error fault => .error fault
  match bytes with
  | 0x65 :: rest => readPower negative significand power rest
  | 0x45 :: rest => readPower negative significand power rest
  | _ => plain bytes

/-- A number from its fraction on, the point already taken. -/
def readFraction (negative : Bool) (significand : Nat) (power : Int) (bytes : Bytes) :
    Reading Number :=
  let (digits, rest) := splitDigits bytes
  match digits with
  | [] => if rest.isEmpty then .error .endInValue else .error .invalidNumber
  | _ :: _ =>
    let (significand, dropped) := takeSignificant significand digits
    finishFloat negative significand (power - (digits.length - dropped : Nat)) rest

/-- The whole number with a sign, or the floating-point number it is too large for. -/
def wholeNumber (negative : Bool) (significand : Nat) : Number :=
  if !negative then .int significand
  else if 0 < significand ∧ significand ≤ Nat.pow 2 63 then .int (-(significand : Int))
  else .float (-(UInt64.ofNat significand).toFloat)

/-- A number after its sign. -/
def readNumber (negative : Bool) (bytes : Bytes) : Reading Number :=
  match bytes with
  | [] => .error .endInValue
  | b :: after =>
    if !isDigitByte b then .error .invalidNumber
    else if b = 0x30 ∧ (after.head?.map isDigitByte).getD false then .error .invalidNumber
    else
      let (digits, rest) := splitDigits bytes
      let (significand, dropped) := takeSignificant 0 digits
      match rest with
      | 0x2e :: fraction => readFraction negative significand dropped fraction
      | _ =>
        if rest.head? = some 0x65 ∨ rest.head? = some 0x45 ∨ 0 < dropped then
          finishFloat negative significand dropped rest
        else .ok (wholeNumber negative significand, rest)

/-- The bytes after a power of ten that is passed over. -/
def skipPower (bytes : Bytes) : Except Fault Bytes :=
  let bytes :=
    match bytes with
    | 0x2b :: rest => rest
    | 0x2d :: rest => rest
    | _ => bytes
  match splitDigits bytes with
  | ([], _) => .error .invalidNumber
  | (_ :: _, rest) => .ok rest

/-- The bytes after what may follow the digits of a number that is passed over. -/
def skipNumberEnd (bytes : Bytes) : Except Fault Bytes :=
  match bytes with
  | 0x65 :: rest => skipPower rest
  | 0x45 :: rest => skipPower rest
  | _ => .ok bytes

/-- The bytes after a number that is passed over, its sign already taken. -/
def skipNumber (bytes : Bytes) : Except Fault Bytes :=
  match bytes with
  | [] => .error .invalidNumber
  | b :: after =>
    if !isDigitByte b then .error .invalidNumber
    else if b = 0x30 ∧ (after.head?.map isDigitByte).getD false then .error .invalidNumber
    else
      match bytes.dropWhile isDigitByte with
      | 0x2e :: fraction =>
        match splitDigits fraction with
        | ([], _) => .error .invalidNumber
        | (_ :: _, rest) => skipNumberEnd rest
      | rest => skipNumberEnd rest

end EngineCatalog.Json
