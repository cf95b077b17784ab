import EngineCatalog.Error
import EngineCatalog.Text.Blank

/-!
# Names of variables

* `isWellFormed` — letters and digits of ASCII, `-`, `.` and `_`, at least one of them. Common
  variables need such a name.
* `checkNotBlank`, `checkWellFormed` — the checks with their errors.
* `defaults` — the variables that are there by default.
-/

namespace EngineCatalog.Variable

/-- A character of a well-formed name. -/
def isNameChar (c : Char) : Bool :=
  c.isAlphanum || c = '-' || c = '.' || c = '_'

/-- A name of letters and digits of ASCII, `-`, `.` and `_`. -/
def isWellFormed (name : String) : Bool :=
  !name.isEmpty && name.toList.all isNameChar

/-- Refuses a blank name. -/
def checkNotBlank (kind : VariableKind) (name : String) : Outcome Unit :=
  if Text.isBlank name then .error (.emptyName kind) else .ok ()

/-- Refuses a name that is not well-formed. -/
def checkWellFormed (name : String) : Outcome Unit :=
  if isWellFormed name then .ok () else .error (.malformedName name)

/-- The variable that holds the namespace. -/
def namespaceName : String := "namespace"

/-- The variables that are there by default: those provided, and the namespace, which those
provided do not override. -/
def defaults (space : String) (provided : Dict String) : Dict String :=
  provided.insert namespaceName space

end EngineCatalog.Variable
