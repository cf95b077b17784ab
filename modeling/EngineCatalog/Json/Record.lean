import EngineCatalog.Json.Value

/-!
# Reading values of known shapes

A text is often read as a value of one shape only: a text, a word, a list, a record with named
fields. What stands there is then looked at first, and a value of another kind is refused with its
own name (`wrongKind`).

* `Reader` — reads a value, given how many more lists and objects may stand within one another.
* `text`, `word`, `members`, `list`, `optional` — readers of one kind of value.
* `Record` — the fields of a record, each with a reader that says what the field changes, and what
  becomes of members that are no fields: they are passed over, or kept.

A record is read from an object. A record that keeps nothing may also be written as the list of its
fields in their order, of which trailing ones that are not required may be left out.
-/

namespace EngineCatalog.Json

open Text

variable {α β : Type}

/-- Reads a value, within which so many more lists and objects may stand in one another. -/
abbrev Reader (α : Type) : Type := Nat → Bytes → Reading α

namespace Reader

/-- The value that some bytes consist of. -/
def run (reader : Reader α) (bytes : Bytes) : Except Fault α :=
  complete (reader nestingLimit bytes)

/-- The reader with its result replaced. -/
def map (f : α → β) (reader : Reader α) : Reader β := fun depth bytes =>
  (reader depth bytes).map f

/-- Any value. -/
def any : Reader Json := readValue

/-- A text. -/
def text : Reader String := fun _ bytes =>
  match skipSpace bytes with
  | [] => .error .endInValue
  | b :: rest =>
    if b = quoteByte then readText rest else .error (wrongKind "a string" (b :: rest))

/-- A number that a 64-bit word holds; `name` is what the word is called in a message. -/
def word (name : String) : Reader Nat := fun _ bytes =>
  match skipSpace bytes with
  | [] => .error .endInValue
  | b :: rest =>
    let number (reading : Reading Number) : Reading Nat :=
      match reading with
      | .error fault => .error fault
      | .ok (.int (.ofNat n), rest) => .ok (n, rest)
      | .ok (.int n, _) => .error (.wrongValue (.int n) name)
      | .ok (.float x, _) => .error (.wrongKind (.float x) name)
    if b = 0x2d then number (readNumber true rest)
    else if isDigitByte b then number (readNumber false (b :: rest))
    else .error (wrongKind name (b :: rest))

/-- The null value, or a value that the reader reads. -/
def optional (reader : Reader α) : Reader (Option α) := fun depth bytes =>
  match skipSpace bytes with
  | 0x6e :: rest => readWord none nullWord rest
  | bytes => (reader depth bytes).map some

/-- A list of values that the reader reads. -/
def list (item : Reader α) : Reader (List α) := fun depth bytes =>
  match skipSpace bytes with
  | [] => .error .endInValue
  | b :: rest =>
    if b = 0x5b then
      match depth with
      | 0 => .error .tooDeep
      | depth + 1 => readItems (item depth) rest
    else .error (wrongKind "a sequence" (b :: rest))

/-- Puts a member's value, which follows the colon, into a dictionary. -/
def putInto (depth : Nat) (dict : Dict Json) (name : String) (bytes : Bytes) :
    Reading (Dict Json) :=
  match afterColon bytes with
  | .error fault => .error fault
  | .ok bytes => (readValue depth bytes).map (dict.insert name)

/-- The members of an object. -/
def members : Reader (Dict Json) := fun depth bytes =>
  match skipSpace bytes with
  | [] => .error .endInValue
  | b :: rest =>
    if b = 0x7b then
      match depth with
      | 0 => .error .tooDeep
      | depth + 1 => readMembers (putInto depth) Dict.empty rest
    else .error (wrongKind "a map" (b :: rest))

end Reader

/-! ## Records -/

/-- A field of a record. -/
structure Field (α : Type) where
  /-- its name -/
  name : String
  /-- a record without it is refused -/
  required : Bool
  /-- what its value changes -/
  read : Reader (α → α)

/-- The shape of a record. -/
structure Record (α : Type) where
  /-- what the record is called in a message -/
  title : String
  /-- the record before any field is read -/
  blank : α
  /-- the fields, in order -/
  fields : List (Field α)
  /-- what a member changes that is no field; without it such members are passed over -/
  keep : Option (String → Json → α → α) := none

namespace Record

/-- A record that is being read, with the names of the fields read so far. -/
abbrev Draft (α : Type) : Type := List String × α

/-- What a member of the given name changes; the bytes are those after the name. -/
def readMember (record : Record α) (depth : Nat) (draft : Draft α) (name : String)
    (bytes : Bytes) : Reading (Draft α) :=
  match record.fields.find? fun field => field.name = name with
  | some field =>
    if draft.1.contains name then .error (.duplicateField name)
    else
      match afterColon bytes with
      | .error fault => .error fault
      | .ok bytes => (field.read depth bytes).map fun change => (name :: draft.1, change draft.2)
  | none =>
    match afterColon bytes with
    | .error fault => .error fault
    | .ok bytes =>
      match record.keep with
      | some keep => (readValue depth bytes).map fun value => (draft.1, keep name value draft.2)
      | none =>
        match skipValue bytes with
        | .error fault => .error fault
        | .ok rest => .ok (draft, rest)

/-- The first required field that has not been read. -/
def missing? (record : Record α) (seen : List String) : Option String :=
  (record.fields.find? fun field => field.required && !seen.contains field.name).map Field.name

/-- A record from an object, whose opening bracket is already taken. -/
def readObject (record : Record α) (depth : Nat) (bytes : Bytes) : Reading α :=
  match readMembers (record.readMember depth) ([], record.blank) bytes with
  | .error fault => .error fault
  | .ok ((seen, value), rest) =>
    match record.missing? seen with
    | some name => .error (.missingField name)
    | none => .ok (value, rest)

/-- The words for the record and the number of its fields. -/
def lengthText (record : Record α) : String :=
  let count := record.fields.length
  s!"{record.title} with {count} element" ++ if count = 1 then "" else "s"

/-- The fields from the one at `place` on, from the items of a list. -/
def readPlaces (record : Record α) (depth place : Nat) (value : α) (bytes : Bytes) :
    List (Field α) → Reading α
  | [] =>
    match closeList bytes with
    | .error fault => .error fault
    | .ok rest => .ok (value, rest)
  | field :: more =>
    match nextItem (place = 0) bytes with
    | .error fault => .error fault
    | .ok none =>
      if field.required then .error (.tooShort place record.lengthText)
      else readPlaces record depth (place + 1) value bytes more
    | .ok (some bytes) =>
      match field.read depth bytes with
      | .error fault => .error fault
      | .ok (change, rest) => readPlaces record depth (place + 1) (change value) rest more

/-- Reads a record. -/
def reader (record : Record α) : Reader α := fun depth bytes =>
  match skipSpace bytes with
  | [] => .error .endInValue
  | b :: rest =>
    if b = 0x7b then
      match depth with
      | 0 => .error .tooDeep
      | depth + 1 => record.readObject depth rest
    else if b = 0x5b ∧ record.keep.isNone then
      match depth with
      | 0 => .error .tooDeep
      | depth + 1 => record.readPlaces depth 0 record.blank rest record.fields
    else .error (wrongKind record.title (b :: rest))

end Record

end EngineCatalog.Json
