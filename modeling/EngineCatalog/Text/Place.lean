import EngineCatalog.Dict
import EngineCatalog.Text.Numeral

/-!
# Places in a text that is read

A message about a text that is read may end in the place where the reader stopped, by line and
column. `withoutPlace` leaves it off, for readers of the message that do not have the text. The
words for the faults of a JSON text are such messages without the place (`Json.Fault.message`).
-/

namespace EngineCatalog.Text

/-- The words for a place. -/
def place (line column : Nat) : String :=
  s!" at line {line} column {column}"

/-- The words for a place, and nothing else. -/
def isPlace (cs : List Char) : Bool :=
  match dropStart? " at line ".toList cs with
  | none => false
  | some rest =>
    match dropStart? " column ".toList (rest.dropWhile Char.isDigit) with
    | none => false
    | some column => areDigits (rest.takeWhile Char.isDigit) && areDigits column

/-- The characters up to the words for a place that they end in. -/
def dropPlace : List Char → List Char
  | [] => []
  | c :: rest => if isPlace (c :: rest) then [] else c :: dropPlace rest

/-- The message without the place that it ends in. -/
def withoutPlace (message : String) : String :=
  String.ofList (dropPlace message.toList)

end EngineCatalog.Text
