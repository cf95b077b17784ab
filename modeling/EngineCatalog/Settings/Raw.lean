import EngineCatalog.Json.Fault
import EngineCatalog.Text.Numeral

/-!
# Settings as their sources give them

A file or an environment gives settings as a tree of loosely typed values: what is meant for a text
may come as a number, and what is meant for a number as a text.

* `Settings.Fault` — why settings cannot be used.
* `Raw` — a value of such a tree.
* `Raw.asText`, `Raw.asWord` — a value where a text or a 64-bit word is asked for.
* `Raw.putAt`, `Raw.putPath` — a value put over what is there: a table is merged with a table,
  anything else replaces what was there. A table without entries changes nothing where there is
  something.
-/

namespace EngineCatalog.Settings

/-- Why settings cannot be used. -/
inductive Fault where
  /-- a value that is not allowed, and the words for it -/
  | invalid (message : String)
  /-- a value that cannot be taken for one of the type asked for -/
  | wrongType
  /-- a file that does not follow its grammar -/
  | malformedFile
  /-- a file that is not there -/
  | missingFile
  deriving DecidableEq

/-- A loosely typed value. -/
inductive Raw where
  /-- no value -/
  | nothing
  /-- a truth value -/
  | bool (value : Bool)
  /-- a whole number -/
  | int (value : Int)
  /-- a floating-point number -/
  | float (value : Float)
  /-- a text -/
  | text (value : String)
  /-- a list of values -/
  | list (items : List Raw)
  /-- a table, its entries in ascending order of their names -/
  | table (entries : List (String × Raw))

namespace Raw

instance : Inhabited Raw := ⟨.nothing⟩

/-- A floating-point number in positional notation with the fewest digits that read back; `whole`
follows a whole number. -/
def plainFloat (x : Float) (whole : List Char) : String :=
  if x.isNaN then "NaN"
  else
    let sign := if x.toBits.toNat / Nat.pow 2 63 = 1 then ['-'] else []
    let body :=
      if x.isInf then ['i', 'n', 'f']
      else if x == 0 then '0' :: whole
      else (shortest x).positional whole
    String.ofList (sign ++ body)

/-- A floating-point number in positional notation, always with a point. -/
def pointedFloat (x : Float) : String := plainFloat x ['.', '0']

/-- A value that stands where a record is asked for, in the words of a message. -/
def describe : Raw → String
  | .nothing => "unit value"
  | .bool value => s!"boolean `{value}`"
  | .int value => s!"integer `{value}`"
  | .float value => s!"floating point `{pointedFloat value}`"
  | .text value => s!"string {Text.quote value}"
  | .list _ => "sequence"
  | .table _ => "map"

/-- The text that a value is taken for. -/
def asText : Raw → Except Fault String
  | .text value => .ok value
  | .bool value => .ok (toString value)
  | .int value => .ok (toString value)
  | .float value => .ok (plainFloat value [])
  | _ => .error .wrongType

/-- The text of ASCII letters in lower case. -/
def lowerCase (text : String) : String :=
  String.ofList (text.toList.map Char.toLower)

/-- The 64-bit word nearest to a floating-point number. -/
def nearestWord (x : Float) : Nat :=
  x.round.toUInt64.toNat

/-- The 64-bit word that a value is taken for. -/
def asWord : Raw → Except Fault Nat
  | .int (.ofNat n) => .ok n
  | .bool value => .ok value.toNat
  | .float value => .ok (nearestWord value)
  | .text value =>
    if ["true", "on", "yes"].contains (lowerCase value) then .ok 1
    else if ["false", "off", "no"].contains (lowerCase value) then .ok 0
    else
      match Text.readWord value with
      | .ok n => .ok n
      | .error _ => .error .wrongType
  | _ => .error .wrongType

/-- The entries of a table; anything else has none. -/
def entries : Raw → List (String × Raw)
  | .table entries => entries
  | _ => []

mutual

/-- Puts a value at a name of a table. -/
def putAt (name : String) (target : List (String × Raw)) : Raw → List (String × Raw)
  | .table [] => if (Sorted.find? name target).isSome then target
    else Sorted.insert name (.table []) target
  | .table incoming =>
    let below := ((Sorted.find? name target).getD (.table [])).entries
    Sorted.insert name (.table (putAll below incoming)) target
  | .nothing => Sorted.insert name .nothing target
  | .bool value => Sorted.insert name (.bool value) target
  | .int value => Sorted.insert name (.int value) target
  | .float value => Sorted.insert name (.float value) target
  | .text value => Sorted.insert name (.text value) target
  | .list items => Sorted.insert name (.list items) target

/-- Puts entries into a table one after the other. -/
def putAll (target : List (String × Raw)) : List (String × Raw) → List (String × Raw)
  | [] => target
  | (name, value) :: more => putAll (putAt name target value) more

end

/-- Puts a value at a path of names below a table; what is no table on the way becomes one. -/
def putPath (value : Raw) : List String → List (String × Raw) → List (String × Raw)
  | [], target => target
  | [name], target => putAt name target value
  | name :: path, target =>
    let below := ((Sorted.find? name target).getD (.table [])).entries
    Sorted.insert name (.table (putPath value path below)) target

end Raw

end EngineCatalog.Settings
