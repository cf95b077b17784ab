import EngineCatalog.Settings.Raw

/-!
# Sections of settings

A section is a record of settings, described by its slots: for each a name, how its value is read,
and how it is shown.

* `Slot` — one setting of a section. A slot holds a text, a text that may be missing, a 64-bit word
  or a whole section.
* `Section.ofJson?` — a section from a JSON value. Types are strict here: a word is a whole number
  without sign, and only a text that may be missing can be null.
* `Section.ofRaw` — a section from a loosely typed value.

In both forms a section may also be given as the list of its slots' values in their order, and a
setting that is not given has the value it has in the blank section.
-/

namespace EngineCatalog.Settings

variable {α β : Type}

/-- One setting of a section. -/
structure Slot (α : Type) where
  /-- its name -/
  name : String
  /-- the section with the value that a JSON value gives -/
  ofJson? : Json → α → Option α
  /-- the section with the value that a loosely typed value gives -/
  ofRaw : Raw → α → Except Fault α
  /-- its value as JSON -/
  toJson : α → Json
  /-- its value as a source of settings -/
  toRaw : α → Except Fault Raw

/-- A record of settings. -/
structure Section (α : Type) where
  /-- what it is called in a message -/
  title : String
  /-- the values of settings that are not given -/
  blank : α
  /-- the settings, in order -/
  slots : List (Slot α)

namespace Section

/-- Reads slots from as many values as there are. -/
def fromItems? (value : α) : List (Slot α) → List Json → Option α
  | slot :: slots, item :: items => do fromItems? (← slot.ofJson? item value) slots items
  | [], _ :: _ => none
  | _, [] => some value

/-- Reads the slots that have a member of their name. -/
def fromMembers? (members : List (String × Json)) (value : α) : List (Slot α) → Option α
  | [] => some value
  | slot :: slots =>
    match Sorted.find? slot.name members with
    | none => fromMembers? members value slots
    | some given => do fromMembers? members (← slot.ofJson? given value) slots

/-- The section that a JSON value gives. -/
def ofJson? (shape : Section α) : Json → Option α
  | .object members => fromMembers? members shape.blank shape.slots
  | .list items => fromItems? shape.blank shape.slots items
  | _ => none

/-- Takes slots from as many values as there are. -/
def takeItems (value : α) : List (Slot α) → List Raw → Except Fault α
  | slot :: slots, item :: items => do takeItems (← slot.ofRaw item value) slots items
  | _, _ => .ok value

/-- Takes the slots that have an entry of their name. -/
def takeEntries (entries : List (String × Raw)) (value : α) : List (Slot α) → Except Fault α
  | [] => .ok value
  | slot :: slots =>
    match Sorted.find? slot.name entries with
    | none => takeEntries entries value slots
    | some given => do takeEntries entries (← slot.ofRaw given value) slots

/-- The section that a loosely typed value gives. -/
def ofRaw (shape : Section α) : Raw → Except Fault α
  | .table entries => takeEntries entries shape.blank shape.slots
  | .list items => takeItems shape.blank shape.slots items
  | value => .error (.invalid s!"invalid type: {value.describe}, expected {shape.title}")

/-- The section as JSON. -/
def toJson (shape : Section α) (value : α) : Json :=
  .object (shape.slots.map fun slot => (slot.name, slot.toJson value))

/-- The section as a source of settings. -/
def toRaw (shape : Section α) (value : α) : Except Fault Raw := do
  let entries ← shape.slots.mapM fun slot => do return (slot.name, ← slot.toRaw value)
  return .table (Raw.putAll [] entries)

end Section

namespace Slot

/-- A slot that holds a text. -/
def text (name : String) (get : α → String) (set : String → α → α) : Slot α where
  name := name
  ofJson? json value := json.text?.map fun text => set text value
  ofRaw raw value := raw.asText.map fun text => set text value
  toJson value := .text (get value)
  toRaw value := .ok (.text (get value))

/-- A slot that holds a text that may be missing. -/
def optionalText (name : String) (get : α → Option String) (set : Option String → α → α) :
    Slot α where
  name := name
  ofJson? json value := json.optionalText?.map fun text => set text value
  ofRaw raw value :=
    match raw with
    | .nothing => .ok (set none value)
    | raw => raw.asText.map fun text => set (some text) value
  toJson value := Json.optionalText (get value)
  toRaw value := .ok (((get value).map Raw.text).getD .nothing)

/-- The largest whole number that a source of settings can give. -/
def largestGiven : Nat := Nat.pow 2 63 - 1

/-- A slot that holds a 64-bit word. -/
def word (name : String) (get : α → Nat) (set : Nat → α → α) : Slot α where
  name := name
  ofJson? json value :=
    match json with
    | .number (.int (.ofNat n)) => some (set n value)
    | _ => none
  ofRaw raw value := raw.asWord.map fun n => set n value
  toJson value := Json.nat (get value)
  toRaw value :=
    if get value ≤ largestGiven then .ok (.int (get value))
    else .error (.invalid s!"value {get value} is greater than the max {largestGiven}")

/-- A slot that holds a section. -/
def nested (name : String) (inner : Section β) (get : α → β) (set : β → α → α) : Slot α where
  name := name
  ofJson? json value := (inner.ofJson? json).map fun part => set part value
  ofRaw raw value := (inner.ofRaw raw).map fun part => set part value
  toJson value := inner.toJson (get value)
  toRaw value := inner.toRaw (get value)

end Slot

end EngineCatalog.Settings
