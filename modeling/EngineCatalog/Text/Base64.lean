import EngineCatalog.Text.Utf8

/-!
# Padded base64

Bytes on the wire of the key-value interface travel as base64 with the standard alphabet: three
bytes become four symbols, and a last group of one or two bytes is filled up with `=`.

* `encodeBase64` — the one form that is written.
* `decodeBase64` — reads that form and no other: no white space, no other alphabet, no missing or
  surplus padding, and no bit set that belongs to no byte.
* `Base64Fault` — what is wrong with a text, with the words a message uses for it.

A text is read in two parts, the complete groups before the last one, in which every symbol must be
a letter of the alphabet, and the last group, which alone may hold padding. A single symbol that
stands over at the end and belongs to no alphabet is reported before anything else.
-/

namespace EngineCatalog.Text

/-- Why a text is not the base64 of any bytes. -/
inductive Base64Fault where
  /-- a symbol that may not stand at this offset -/
  | symbol (byte : UInt8) (offset : Nat)
  /-- one symbol stands over at the end -/
  | length (symbols : Nat)
  /-- the last symbol sets bits that belong to no byte -/
  | lastSymbol (byte : UInt8) (offset : Nat)
  /-- the last group is not filled up to four symbols -/
  | padding
  deriving DecidableEq, Repr

/-- The words for a fault. -/
def Base64Fault.message : Base64Fault → String
  | .symbol byte offset => s!"Invalid symbol {byte.toNat}, offset {offset}."
  | .length symbols => s!"Invalid input length: {symbols}"
  | .lastSymbol byte offset => s!"Invalid last symbol {byte.toNat}, offset {offset}."
  | .padding => "Invalid padding"

/-! ## The alphabet -/

/-- The symbol that fills up the last group. -/
def padSymbol : UInt8 := 61

/-- The symbol for six bits. -/
def symbolOf (bits : Nat) : UInt8 :=
  if bits < 26 then UInt8.ofNat (65 + bits)
  else if bits < 52 then UInt8.ofNat (97 + (bits - 26))
  else if bits < 62 then UInt8.ofNat (48 + (bits - 52))
  else if bits = 62 then 43
  else 47

/-- The six bits a symbol stands for. -/
def symbolBits? (symbol : UInt8) : Option Nat :=
  let n := symbol.toNat
  if 65 ≤ n ∧ n ≤ 90 then some (n - 65)
  else if 97 ≤ n ∧ n ≤ 122 then some (n - 97 + 26)
  else if 48 ≤ n ∧ n ≤ 57 then some (n - 48 + 52)
  else if n = 43 then some 62
  else if n = 47 then some 63
  else none

/-- Symbol and bits are inverse to each other. -/
theorem symbolBits?_symbolOf : ∀ bits : Fin 64, symbolBits? (symbolOf bits.val) = some bits.val := by
  decide

/-! ## Writing -/

/-- The symbols of some bytes. -/
def base64Symbols : Bytes → List UInt8
  | [] => []
  | [a] =>
    [symbolOf (a.toNat / 4), symbolOf (a.toNat % 4 * 16), padSymbol, padSymbol]
  | [a, b] =>
    [symbolOf (a.toNat / 4), symbolOf (a.toNat % 4 * 16 + b.toNat / 16),
      symbolOf (b.toNat % 16 * 4), padSymbol]
  | a :: b :: c :: rest =>
    symbolOf (a.toNat / 4) :: symbolOf (a.toNat % 4 * 16 + b.toNat / 16)
      :: symbolOf (b.toNat % 16 * 4 + c.toNat / 64) :: symbolOf (c.toNat % 64)
      :: base64Symbols rest

/-- The base64 text of some bytes. -/
def encodeBase64 (bytes : Bytes) : String :=
  String.ofList ((base64Symbols bytes).map fun symbol => Char.ofNat symbol.toNat)

/-! ## Reading -/

/-- The bits of symbols of which none may be padding; `offset` is the place of the first. -/
def plainBits (offset : Nat) : List UInt8 → Except Base64Fault (List Nat)
  | [] => .ok []
  | symbol :: rest =>
    match symbolBits? symbol with
    | none => .error (.symbol symbol offset)
    | some bits => (plainBits (offset + 1) rest).map (bits :: ·)

/-- The bytes of complete groups of four times six bits. -/
def groupBytes : List Nat → Bytes
  | a :: b :: c :: d :: rest =>
    UInt8.ofNat (a * 4 + b / 16) :: UInt8.ofNat (b % 16 * 16 + c / 4)
      :: UInt8.ofNat (c % 4 * 64 + d) :: groupBytes rest
  | _ => []

/-- What has been read of the last group. -/
structure LastGroup where
  /-- the bits of the symbols so far -/
  bits : List Nat := []
  /-- the last symbol that was no padding -/
  symbol : UInt8 := 0
  /-- how much padding there was -/
  pads : Nat := 0
  /-- the place of the first padding in the group -/
  firstPad : Nat := 0

/-- Reads the last group; `start` is where the group starts and `place` the place within it. -/
def readLastGroup (start place : Nat) (group : LastGroup) :
    List UInt8 → Except Base64Fault LastGroup
  | [] => .ok group
  | symbol :: rest =>
    if symbol = padSymbol then
      if place < 2 then .error (.symbol symbol (start + place))
      else
        readLastGroup start (place + 1)
          { group with
            pads := group.pads + 1
            firstPad := if group.pads = 0 then place else group.firstPad }
          rest
    else if 0 < group.pads then .error (.symbol padSymbol (start + group.firstPad))
    else
      match symbolBits? symbol with
      | none => .error (.symbol symbol (start + place))
      | some bits =>
        readLastGroup start (place + 1)
          { group with bits := group.bits ++ [bits], symbol := symbol } rest

/-- The bytes of the last group. -/
def lastBytes (start : Nat) (group : LastGroup) : Except Base64Fault Bytes :=
  match group.bits with
  | [] => .error (.length start)
  | [_] => .error (.length (start + 1))
  | [a, b] =>
    if group.pads ≠ 2 then .error .padding
    else if b % 16 ≠ 0 then .error (.lastSymbol group.symbol (start + 1))
    else .ok [UInt8.ofNat (a * 4 + b / 16)]
  | [a, b, c] =>
    if group.pads ≠ 1 then .error .padding
    else if c % 4 ≠ 0 then .error (.lastSymbol group.symbol (start + 2))
    else .ok [UInt8.ofNat (a * 4 + b / 16), UInt8.ofNat (b % 16 * 16 + c / 4)]
  | bits => .ok (groupBytes bits)

/-- The length of the complete groups that stand before the last group. -/
def leadingLength (length : Nat) : Nat :=
  if length % 4 = 0 then length - 4 else length - length % 4

/-- The bytes whose base64 the symbols are. -/
def decodeSymbols (symbols : List UInt8) : Except Base64Fault Bytes :=
  match symbols with
  | [] => .ok []
  | _ :: _ =>
    let last := symbols.getLastD padSymbol
    if symbols.length % 4 = 1 ∧ last ≠ padSymbol ∧ (symbolBits? last).isNone then
      .error (.symbol last (symbols.length - 1))
    else do
      let start := leadingLength symbols.length
      let leading ← plainBits 0 (symbols.take start)
      let group ← readLastGroup start 0 {} (symbols.drop start)
      let final ← lastBytes start group
      return groupBytes leading ++ final

/-- The bytes whose base64 the text is. -/
def decodeBase64 (text : String) : Except Base64Fault Bytes :=
  decodeSymbols (encode text)

end EngineCatalog.Text
