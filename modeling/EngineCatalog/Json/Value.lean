import EngineCatalog.Json.Lexical

/-!
# Lists, objects and whole values

* `nextItem`, `nextName` — what stands between the items of a list and between the members of an
  object. A comma is taken only where another item or member follows.
* `readItems`, `readMembers` — a list or object after its opening bracket, given a reader of its
  items or of what follows a member's name.
* `readValue` — any value. At most `nestingLimit` lists and objects may stand within one another;
  the reader recurses on how many more are allowed.
* `skipValue` — the bytes after a value that is passed over, at any depth of nesting. It keeps the
  brackets that are still open in a list.
* `wrongKind` — the fault of finding another kind of value than asked for. The value is read as far
  as the message shows it, and what is wrong with it comes first.

The loops take a bound on the number of items that is the length of the bytes that are left: each
item takes one byte at least.
-/

namespace EngineCatalog.Json

open Text

/-- How many lists and objects may stand within one another. -/
def nestingLimit : Nat := 127

/-- The closing bracket of a list. -/
def listEnd : UInt8 := 0x5d

/-- The closing bracket of an object. -/
def objectEnd : UInt8 := 0x7d

/-- The comma. -/
def commaByte : UInt8 := 0x2c

/-! ## Between items and members -/

/-- The bytes of the next item of a list; none at the closing bracket, which is left in place. -/
def nextItem (first : Bool) (bytes : Bytes) : Except Fault (Option Bytes) :=
  match skipSpace bytes with
  | [] => .error .endInList
  | b :: rest =>
    if b = listEnd then .ok none
    else if first then .ok (some (b :: rest))
    else if b = commaByte then
      match skipSpace rest with
      | [] => .error .endInValue
      | b :: rest => if b = listEnd then .error .trailingComma else .ok (some (b :: rest))
    else .error .expectedItemEnd

/-- The bytes after the closing bracket of a list whose items are all taken. -/
def closeList (bytes : Bytes) : Except Fault Bytes :=
  match skipSpace bytes with
  | [] => .error .endInList
  | b :: rest =>
    if b = listEnd then .ok rest
    else if b = commaByte then
      match skipSpace rest with
      | [] => .error .trailingCharacters
      | b :: _ => if b = listEnd then .error .trailingComma else .error .trailingCharacters
    else .error .trailingCharacters

/-- The name of the next member of an object; none at the closing bracket, which is taken. -/
def nextName (first : Bool) (bytes : Bytes) : Reading (Option String) :=
  match skipSpace bytes with
  | [] => .error .endInObject
  | b :: rest =>
    if b = objectEnd then .ok (none, rest)
    else if first then
      if b = quoteByte then (readText rest).map some else .error .nameNotText
    else if b = commaByte then
      match skipSpace rest with
      | [] => .error .endInValue
      | b :: rest =>
        if b = quoteByte then (readText rest).map some
        else if b = objectEnd then .error .trailingComma
        else .error .nameNotText
    else .error .expectedMemberEnd

/-- The bytes after the colon that follows a member's name. -/
def afterColon (bytes : Bytes) : Except Fault Bytes :=
  match skipSpace bytes with
  | [] => .error .endInObject
  | b :: rest => if b = 0x3a then .ok rest else .error .expectedColon

/-! ## Lists and objects -/

variable {α σ : Type}

/-- The items of a list and the bytes after its closing bracket; at most `bound - 1` items. -/
def readItemsWithin (item : Bytes → Reading α) : Nat → Bool → Bytes → Reading (List α)
  | 0, _, _ => .error .endInList
  | bound + 1, first, bytes =>
    match nextItem first bytes with
    | .error fault => .error fault
    | .ok none =>
      match closeList bytes with
      | .error fault => .error fault
      | .ok rest => .ok ([], rest)
    | .ok (some bytes) =>
      match item bytes with
      | .error fault => .error fault
      | .ok (x, rest) => (readItemsWithin item bound false rest).map (x :: ·)

/-- The items of a list after its opening bracket. -/
def readItems (item : Bytes → Reading α) (bytes : Bytes) : Reading (List α) :=
  readItemsWithin item (bytes.length + 1) true bytes

/-- The members of an object and the bytes after its closing bracket; at most `bound - 1` members.
What follows a name changes a state. -/
def readMembersWithin (member : σ → String → Bytes → Reading σ) :
    Nat → Bool → σ → Bytes → Reading σ
  | 0, _, _, _ => .error .endInObject
  | bound + 1, first, state, bytes =>
    match nextName first bytes with
    | .error fault => .error fault
    | .ok (none, rest) => .ok (state, rest)
    | .ok (some name, rest) =>
      match member state name rest with
      | .error fault => .error fault
      | .ok (state, rest) => readMembersWithin member bound false state rest

/-- The members of an object after its opening bracket. -/
def readMembers (member : σ → String → Bytes → Reading σ) (state : σ) (bytes : Bytes) :
    Reading σ :=
  readMembersWithin member (bytes.length + 1) true state bytes

/-- Puts a member's value, which follows the colon, among the members read before. -/
def putMember (value : Bytes → Reading Json) (members : List (String × Json)) (name : String)
    (bytes : Bytes) : Reading (List (String × Json)) :=
  match afterColon bytes with
  | .error fault => .error fault
  | .ok bytes => (value bytes).map fun json => Sorted.insert name json members

/-! ## Any value -/

/-- A value, within which `depth` more lists and objects may stand in one another. -/
def readValue (depth : Nat) (bytes : Bytes) : Reading Json :=
  match skipSpace bytes with
  | [] => .error .endInValue
  | b :: rest =>
    match b with
    | 0x6e => readWord .null nullWord rest
    | 0x74 => readWord (.bool true) trueWord rest
    | 0x66 => readWord (.bool false) falseWord rest
    | 0x22 => (readText rest).map .text
    | 0x2d => (readNumber true rest).map .number
    | 0x5b =>
      match depth with
      | 0 => .error .tooDeep
      | depth + 1 => (readItems (readValue depth) rest).map .list
    | 0x7b =>
      match depth with
      | 0 => .error .tooDeep
      | depth + 1 => (readMembers (putMember (readValue depth)) [] rest).map .object
    | b =>
      if isDigitByte b then (readNumber false (b :: rest)).map .number
      else .error .expectedValue

/-- The result of reading when nothing but white space follows. -/
def complete (reading : Reading α) : Except Fault α :=
  match reading with
  | .error fault => .error fault
  | .ok (result, rest) =>
    if (skipSpace rest).isEmpty then .ok result else .error .trailingCharacters

/-- The value a text consists of. -/
def parse (bytes : Bytes) : Except Fault Json :=
  complete (readValue nestingLimit bytes)

/-! ## Values that are passed over -/

/-- A bracket that is still open. -/
inductive Bracket where
  /-- of a list -/
  | list
  /-- of an object -/
  | object
  deriving DecidableEq

/-- The bracket that closes. -/
def Bracket.close : Bracket → UInt8
  | .list => listEnd
  | .object => objectEnd

/-- The fault of a text that ends within the bracket. -/
def Bracket.unclosed : Bracket → Fault
  | .list => .endInList
  | .object => .endInObject

/-- The fault of something that neither continues nor closes the bracket. -/
def Bracket.unseparated : Bracket → Fault
  | .list => .expectedItemEnd
  | .object => .expectedMemberEnd

/-- The bytes of the value that comes next within a bracket: for an object, those after the name
and the colon. -/
def skipToValue (bracket : Bracket) (bytes : Bytes) : Except Fault Bytes :=
  match bracket with
  | .list => .ok bytes
  | .object =>
    match skipSpace bytes with
    | [] => .error .endInObject
    | b :: rest =>
      if b = quoteByte then
        match skipText 0 rest with
        | .error fault => .error fault
        | .ok rest => afterColon rest
      else .error .nameNotText

mutual

/-- The bytes after a value that stands within the open brackets, and after all of these. -/
def skipValueWithin : Nat → List Bracket → Bytes → Except Fault Bytes
  | 0, _, _ => .error .endInValue
  | bound + 1, brackets, bytes =>
    match skipSpace bytes with
    | [] => .error .endInValue
    | b :: rest =>
      match b with
      | 0x6e => skipped (readWord () nullWord rest) bound brackets
      | 0x74 => skipped (readWord () trueWord rest) bound brackets
      | 0x66 => skipped (readWord () falseWord rest) bound brackets
      | 0x22 =>
        match skipText 0 rest with
        | .error fault => .error fault
        | .ok rest => skipClosers bound brackets rest
      | 0x2d =>
        match skipNumber rest with
        | .error fault => .error fault
        | .ok rest => skipClosers bound brackets rest
      | 0x5b => skipOpened bound .list brackets rest
      | 0x7b => skipOpened bound .object brackets rest
      | b =>
        if isDigitByte b then
          match skipNumber (b :: rest) with
          | .error fault => .error fault
          | .ok rest => skipClosers bound brackets rest
        else .error .expectedValue

/-- Goes on after a word that is passed over. -/
def skipped (word : Reading Unit) : Nat → List Bracket → Except Fault Bytes
  | 0, _ => .error .endInValue
  | bound + 1, brackets =>
    match word with
    | .error fault => .error fault
    | .ok (_, rest) => skipClosers bound brackets rest

/-- Goes on after an opening bracket. -/
def skipOpened : Nat → Bracket → List Bracket → Bytes → Except Fault Bytes
  | 0, _, _, _ => .error .endInValue
  | bound + 1, bracket, brackets, bytes =>
    match skipSpace bytes with
    | [] => .error bracket.unclosed
    | b :: rest =>
      if b = bracket.close then skipClosers bound brackets rest
      else
        match skipToValue bracket (b :: rest) with
        | .error fault => .error fault
        | .ok bytes => skipValueWithin bound (bracket :: brackets) bytes

/-- Goes on after a value that stands within the open brackets. -/
def skipClosers : Nat → List Bracket → Bytes → Except Fault Bytes
  | _, [], bytes => .ok bytes
  | 0, _ :: _, _ => .error .endInValue
  | bound + 1, bracket :: brackets, bytes =>
    match skipSpace bytes with
    | [] => .error bracket.unclosed
    | b :: rest =>
      if b = commaByte then
        match skipToValue bracket rest with
        | .error fault => .error fault
        | .ok bytes => skipValueWithin bound (bracket :: brackets) bytes
      else if b = bracket.close then skipClosers bound brackets rest
      else .error bracket.unseparated

end

/-- The bytes after a value that is passed over. -/
def skipValue (bytes : Bytes) : Except Fault Bytes :=
  skipValueWithin (2 * bytes.length + 2) [] bytes

/-! ## Values of the wrong kind -/

/-- The fault of finding the value at the front of the bytes where another kind is asked for. -/
def wrongKind (expected : String) (bytes : Bytes) : Fault :=
  let found (reading : Reading Found) : Fault :=
    match reading with
    | .error fault => fault
    | .ok (found, _) => .wrongKind found expected
  let number (reading : Reading Number) : Fault :=
    found (reading.map fun
      | .int value => .int value
      | .float value => .float value)
  match bytes with
  | [] => .expectedValue
  | b :: rest =>
    match b with
    | 0x6e => found (readWord .null nullWord rest)
    | 0x74 => found (readWord (.bool true) trueWord rest)
    | 0x66 => found (readWord (.bool false) falseWord rest)
    | 0x22 => found ((readText rest).map .text)
    | 0x2d => number (readNumber true rest)
    | 0x5b => .wrongKind .list expected
    | 0x7b => .wrongKind .object expected
    | b => if isDigitByte b then number (readNumber false (b :: rest)) else .expectedValue

end EngineCatalog.Json
