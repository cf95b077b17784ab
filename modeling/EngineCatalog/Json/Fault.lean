import EngineCatalog.Decimal.Shortest
import EngineCatalog.Json.Basic
import EngineCatalog.Text.Quoted

/-!
# What can be wrong with a JSON text

A text that is read can fail to be JSON at all, or it can be JSON of another shape than the reader
asks for. `Fault` lists both kinds, and `Fault.message` gives the words for them. Where in the text
the reader stopped, by line and column, is in no fault and in none of the words.

A value of the wrong shape is named in the message by what was found (`Found`): the value itself
for truth values, numbers and texts, the kind alone for lists and objects.
-/

namespace EngineCatalog

/-- The text of a floating-point number: its shortest decimal, positional from `1e-5` up to below
`1e16` and there always with a point, else with a power of ten that carries its sign. -/
def floatText (x : Float) : String :=
  let sign := if x.toBits.toNat / Nat.pow 2 63 = 1 then ['-'] else []
  if x == 0 then String.ofList (sign ++ ['0', '.', '0'])
  else
    let decimal := shortest x
    let body :=
      if -5 ≤ decimal.leading ∧ decimal.leading < 16 then decimal.positional ['.', '0']
      else decimal.scientific
    String.ofList (sign ++ body)

namespace Json

/-- What stands where something else is asked for. -/
inductive Found where
  /-- the null value -/
  | null
  /-- a truth value -/
  | bool (value : Bool)
  /-- a whole number -/
  | int (value : Int)
  /-- a floating-point number -/
  | float (value : Float)
  /-- a text -/
  | text (value : String)
  /-- a list -/
  | list
  /-- an object -/
  | object

/-- The words for what was found. -/
def Found.describe : Found → String
  | .null => "null"
  | .bool value => s!"boolean `{value}`"
  | .int value => s!"integer `{value}`"
  | .float value => s!"floating point `{floatText value}`"
  | .text value => s!"string {Text.quote value}"
  | .list => "sequence"
  | .object => "map"

/-- Why a text cannot be read. -/
inductive Fault where
  /-- the text ends where a value is still to come -/
  | endInValue
  /-- the text ends within a list -/
  | endInList
  /-- the text ends within an object -/
  | endInObject
  /-- the text ends within a quoted text -/
  | endInText
  /-- something that starts no value -/
  | expectedValue
  /-- a word that is none of the three -/
  | expectedWord
  /-- a member's name is not followed by a colon -/
  | expectedColon
  /-- a member is followed neither by another nor by the end of the object -/
  | expectedMemberEnd
  /-- an item is followed neither by another nor by the end of the list -/
  | expectedItemEnd
  /-- a member's name is not a quoted text -/
  | nameNotText
  /-- a comma before the end of a list or object -/
  | trailingComma
  /-- something follows the value -/
  | trailingCharacters
  /-- a number that does not follow the grammar -/
  | invalidNumber
  /-- a number beyond the largest floating-point number -/
  | numberOutOfRange
  /-- a backslash before something that is no escape -/
  | invalidEscape
  /-- half of a surrogate pair without its other half -/
  | loneSurrogate
  /-- a leading surrogate that no escape follows -/
  | surrogateUnpaired
  /-- bytes within a quoted text that are not UTF-8 -/
  | invalidUtf8
  /-- a control character within a quoted text -/
  | controlCharacter
  /-- too many lists and objects within one another -/
  | tooDeep
  /-- a record lacks a field -/
  | missingField (name : String)
  /-- a record has a field twice -/
  | duplicateField (name : String)
  /-- a value of another kind than asked for -/
  | wrongKind (found : Found) (expected : String)
  /-- a value of the right kind that is not allowed -/
  | wrongValue (found : Found) (expected : String)
  /-- a list with too few items for the record it stands for -/
  | tooShort (length : Nat) (expected : String)

/-- The words for a fault. The place at which the reader stopped is left out: a message that ends in
the place (`Text.place`) comes down to these words by leaving it off (`Text.withoutPlace`). -/
def Fault.message : Fault → String
  | .endInValue => "EOF while parsing a value"
  | .endInList => "EOF while parsing a list"
  | .endInObject => "EOF while parsing an object"
  | .endInText => "EOF while parsing a string"
  | .expectedValue => "expected value"
  | .expectedWord => "expected ident"
  | .expectedColon => "expected `:`"
  | .expectedMemberEnd => "expected `,` or `\x7d`"
  | .expectedItemEnd => "expected `,` or `]`"
  | .nameNotText => "key must be a string"
  | .trailingComma => "trailing comma"
  | .trailingCharacters => "trailing characters"
  | .invalidNumber => "invalid number"
  | .numberOutOfRange => "number out of range"
  | .invalidEscape => "invalid escape"
  | .loneSurrogate => "lone leading surrogate in hex escape"
  | .surrogateUnpaired => "unexpected end of hex escape"
  | .invalidUtf8 => "invalid unicode code point"
  | .controlCharacter => "control character (\\u0000-\\u001F) found while parsing a string"
  | .tooDeep => "recursion limit exceeded"
  | .missingField name => s!"missing field `{name}`"
  | .duplicateField name => s!"duplicate field `{name}`"
  | .wrongKind found expected => s!"invalid type: {found.describe}, expected {expected}"
  | .wrongValue found expected => s!"invalid value: {found.describe}, expected {expected}"
  | .tooShort length expected => s!"invalid length {length}, expected {expected}"

end Json

end EngineCatalog
