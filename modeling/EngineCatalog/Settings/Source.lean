import EngineCatalog.Settings.Basic
import EngineCatalog.Settings.Toml.Document

/-!
# Where settings come from

Settings are taken from layers: those that count already, then a file if there is one, then the
environment. What a layer gives is put over what the layers before it gave.

* `Environment.entries` — the settings that variables of the environment give. Their names start
  with `SYNC__`, and two more underscores stand between the levels; the case of letters does not
  matter. A variable without text gives nothing.
* `ofText` — what the text of a variable is taken for: a truth value, a whole number, a number,
  or else a text.
* `Settings.overlaid` — the settings with a file and the environment put over them.
* `Settings.load` — the same over the settings that count where nothing is given.
-/

namespace EngineCatalog.Settings

/-! ## Texts that may be values -/

/-- The whole number of 64 bits with a sign that a text writes. -/
def readInt? : List Char → Option Int
  | '-' :: digits =>
    match digits with
    | '+' :: _ => none
    | digits =>
      match Text.readNumeral (Nat.pow 2 63 + 1) digits with
      | .ok n => some (-(n : Int))
      | .error _ => none
  | cs =>
    match Text.readNumeral (Nat.pow 2 63) cs with
    | .ok n => some n
    | .error _ => none

/-- A power of ten after its letter. -/
def readPower? (cs : List Char) : Option Int :=
  match cs with
  | '-' :: digits => if Text.areDigits digits then some (-(digitsValue digits : Int)) else none
  | '+' :: digits => if Text.areDigits digits then some (digitsValue digits) else none
  | digits => if Text.areDigits digits then some (digitsValue digits) else none

/-- The decimal that a text without sign writes: digits with or without a point among them, and a
power of ten if there is one. -/
def readDecimal? (cs : List Char) : Option Decimal :=
  let whole := cs.takeWhile Char.isDigit
  let (fraction, rest) :=
    match cs.dropWhile Char.isDigit with
    | '.' :: rest => (rest.takeWhile Char.isDigit, rest.dropWhile Char.isDigit)
    | rest => ([], rest)
  if whole.isEmpty && fraction.isEmpty then none
  else
    match rest with
    | [] => some (Decimal.ofDigits whole fraction 0)
    | letter :: power =>
      if letter = 'e' || letter = 'E' then
        (readPower? power).map fun power => Decimal.ofDigits whole fraction power
      else none

/-- The floating-point number that a text without sign writes. -/
def readMagnitude? (cs : List Char) : Option Float :=
  let word := Raw.lowerCase (String.ofList cs)
  if word = "inf" || word = "infinity" then some (1.0 / 0.0)
  else if word = "nan" then some (0.0 / 0.0)
  else (readDecimal? cs).map nearestFloat

/-- The floating-point number that a text writes. -/
def readFloat? : List Char → Option Float
  | '+' :: rest => readMagnitude? rest
  | '-' :: rest => (readMagnitude? rest).map fun x => -x
  | cs => readMagnitude? cs

/-- The value that a text is taken for. -/
def ofText (text : String) : Raw :=
  let word := Raw.lowerCase text
  if word = "true" then .bool true
  else if word = "false" then .bool false
  else
    match readInt? text.toList with
    | some n => .int n
    | none =>
      match readFloat? text.toList with
      | some x => .float x
      | none => .text text

/-! ## Paths -/

/-- A character of a name within a path. -/
def isPathChar (c : Char) : Bool :=
  c.isAlphanum || c = '_' || c = '-' || c = ' '

/-- The names between the points of a text. -/
def pathNames (text : String) : List String :=
  (text.toList.splitOn '.').map String.ofList

/-- The path that a text is: names with points between them. Any other text is one name. -/
def pathOf (text : String) : List String :=
  let names := pathNames text
  if names.all fun name => !name.isEmpty && name.toList.all isPathChar then names else [text]

/-! ## The environment -/

/-- What the names of variables start with. -/
def environmentStart : List Char := "sync__".toList

/-- The characters with a point in place of every two underscores. -/
def withPoints : List Char → List Char
  | [] => []
  | '_' :: '_' :: rest => '.' :: withPoints rest
  | c :: rest => c :: withPoints rest

/-- The path that a variable sets, if it sets any. -/
def variablePath? (name : String) : Option (List String) :=
  (dropStart? environmentStart (Raw.lowerCase name).toList).map fun rest =>
    pathOf (String.ofList (withPoints rest))

/-- Puts what variables of the environment give into a table. -/
def putVariables (target : List (String × Raw)) : List (String × String) → List (String × Raw)
  | [] => target
  | (name, text) :: more =>
    match variablePath? name with
    | none => putVariables target more
    | some path =>
      if text.isEmpty then putVariables target more
      else putVariables (Raw.putPath (ofText text) path target) more

/-! ## Files -/

/-- A file of settings, as it is found. -/
inductive File where
  /-- there is none -/
  | missing
  /-- there is one with this text -/
  | found (text : String)
  deriving DecidableEq

/-- The settings that a file gives. -/
def File.entries : File → Except Fault (List (String × Raw))
  | .missing => .error .missingFile
  | .found text =>
    match Toml.parse text with
    | some entries => .ok entries
    | none => .error .malformedFile

/-- Puts what a file gives into a table. The names in its first lines may be paths. -/
def putEntries (target : List (String × Raw)) : List (String × Raw) → List (String × Raw)
  | [] => target
  | (name, value) :: more => putEntries (Raw.putPath value (pathOf name) target) more

/-! ## Layers -/

/-- The settings with a file, if one is named, and the environment put over them. -/
def overlaid (settings : Settings) (file : Option File) (environment : Dict String) :
    Except Fault Settings := do
  let current ← Settings.shape.toRaw settings
  let given ← ((file.map File.entries).getD (.ok []))
  let table := putVariables (putEntries current.entries given) environment.entries
  Settings.shape.ofRaw (.table table)

/-- The settings that a file, if one is named, and the environment give. -/
def load (file : Option File) (environment : Dict String) : Except Fault Settings :=
  Settings.overlaid default file environment

end EngineCatalog.Settings
