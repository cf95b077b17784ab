import EngineCatalog.Dict

/-!
# JSON values

* `Number` — a whole number between `-2 ^ 63` and `2 ^ 64`, or a floating-point number. Which of
  the two a written number is depends on its form and its size alone (`Json.Number`).
* `Json` — a value. The members of an object stand in the order in which they are written. An
  object that is read has them in ascending order of their names, each name once: the reader puts
  every member at its place (`Sorted.insert`), so of two members of one name the later one counts.

Equality of values is the equality that `==` decides: numbers compare as numbers of their kind.
-/

namespace EngineCatalog

/-- A JSON number. -/
inductive Number where
  /-- a whole number -/
  | int (value : Int)
  /-- a floating-point number -/
  | float (value : Float)
  deriving BEq

/-- A JSON value. -/
inductive Json where
  /-- the null value -/
  | null
  /-- a truth value -/
  | bool (value : Bool)
  /-- a number -/
  | number (value : Number)
  /-- a text -/
  | text (value : String)
  /-- a list of values -/
  | list (items : List Json)
  /-- an object, its members in the order in which they are written -/
  | object (members : List (String × Json))
  deriving BEq

namespace Json

instance : Inhabited Json := ⟨.null⟩

/-- The members of an object; no other value has any. -/
def members : Json → List (String × Json)
  | .object members => members
  | _ => []

/-- The member of an object with a name; null if there is none. -/
def member (value : Json) (name : String) : Json :=
  (Sorted.find? name value.members).getD .null

/-- A whole number as a value. -/
def nat (n : Nat) : Json := .number (.int n)

/-- A dictionary as an object. -/
def ofDict (dict : Dict Json) : Json := .object dict.entries

/-- A list of texts as a value. -/
def texts (items : List String) : Json := .list (items.map .text)

/-- A text that may be missing, as a value. -/
def optionalText : Option String → Json
  | none => .null
  | some s => .text s

/-- The text that a value is. -/
def text? : Json → Option String
  | .text s => some s
  | _ => none

/-- The text that a value is, where null stands for no text. -/
def optionalText? : Json → Option (Option String)
  | .null => some none
  | .text s => some (some s)
  | _ => none

/-- The dictionary of an object's members. -/
def dict? : Json → Option (Dict Json)
  | .object members => some (Dict.ofList members)
  | _ => none

end Json

end EngineCatalog
