import EngineCatalog.Catalog.Basic
import EngineCatalog.Retry
import EngineCatalog.Secret.Keeper
import EngineCatalog.Variable.Name

/-!
# One namespace of variables over two stores

Common variables lie in the key-value store, secured variables in secrets. A name is taken in one
of the two only: no common variable has the name of a variable in the default secret.

Whatever touches secrets takes turns: each operation holds the lock while it reads and changes them.
Audit records are left once the lock is released, and only for what was changed.

* `Coordinator` — both stores and the settings of the operations.
* `addVariables`, `updateVariables`, `deleteVariables`, `deleteFromSecrets` — secured variables.
* `addCommon`, `addCommons`, `addUnlogged`, `deleteCommons` — common variables.
* `restoreDefaults` — makes the default variables common ones.
-/

namespace EngineCatalog

open Secret (Data)
open Variable (checkNotBlank checkWellFormed)

/-- Both stores of variables and the settings of the operations. -/
structure Coordinator where
  /-- the way to the secrets -/
  keeper : Keeper
  /-- the way to the key-value store -/
  catalog : Catalog
  /-- how long all removals of one batch may take, if there is a bound -/
  batchTimeout : Option Span
  /-- how the restoring of default variables is retried -/
  restorePolicy : BackoffPolicy

namespace Coordinator

/-- The coordinator for some settings. -/
def of (settings : Settings) : Coordinator :=
  ⟨Keeper.of settings.secrets, Catalog.of settings, settings.secrets.batchTimeout,
    settings.retry.restore⟩

/-- Leaves audit records one after the other. -/
def recordAll : List Audit.Record → Work Unit
  | [] => return ()
  | record :: more => do
    Work.record record
    recordAll more

/-- Checks each of some names. -/
def checkEach (check : String → Outcome Unit) : List String → Outcome Unit
  | [] => .ok ()
  | name :: more =>
    match check name with
    | .ok () => checkEach check more
    | .error error => .error error

/-! ## Reading secured variables -/

/-- The names of the variables of each secret. -/
def allNames (coordinator : Coordinator) : Work (Dict Names) :=
  Work.locked do
    let all ← coordinator.keeper.all
    return all.map fun _ data => Names.ofKeys data

/-- The names of the variables of a secret. -/
def names (coordinator : Coordinator) (secret : String) (strict : Bool) : Work Names :=
  Work.locked do
    let data ← Keeper.data (coordinator.keeper.resolve secret) strict
    return Names.ofKeys data

/-- The names of the variables of the default secret. -/
def defaultNames (coordinator : Coordinator) (strict : Bool) : Work Names :=
  coordinator.names coordinator.keeper.defaultName strict

/-! ## Adding secured variables -/

/-- The first common variable, by name, that has the name of a variable in the default secret or of
one that is to be added. -/
def collision? (common : Dict String) (current : Data) (added : Dict String) : Option String :=
  common.keys.find? fun name => current.contains name || added.contains name

/-- Refuses variables for the default secret that have the name of a common variable. -/
def checkCollision (coordinator : Coordinator) (current : Data) (added : Dict String) :
    Work Unit := do
  let common ← Work.ofStore coordinator.catalog.allVariables
  match collision? common current added with
  | some name => .fail (.nameCollision name .common)
  | none => return ()

/-- What is done to a variable that is added. -/
def additionOf (imported : Bool) (before : Data) (name : String) : Audit.Operation :=
  if imported then .imported
  else if before.contains name then .update
  else .create

/-- Adds variables to a secret, or overwrites them. -/
def addVariables (coordinator : Coordinator) (secret : String) (values : Dict String)
    (imported : Bool) : Work Names := do
  if values.isEmpty then return Dict.empty
  let secret := coordinator.keeper.resolve secret
  let before ← Work.locked do
    let current ← Keeper.data secret true
    if coordinator.keeper.isDefault secret then
      coordinator.checkCollision current values
    Operation.ofOutcome (checkEach (checkNotBlank .secured) values.keys)
    let _ ← Keeper.add secret values current.isEmpty
    return current
  recordAll (values.keys.map fun name =>
    .secured name secret (additionOf imported before name))
  return Names.ofKeys values

/-- Adds variables to the default secret, or overwrites them. -/
def addDefaults (coordinator : Coordinator) (values : Dict String) : Work Names :=
  coordinator.addVariables coordinator.keeper.defaultName values false

/-- Imports variables into the default secret. -/
def importVariables (coordinator : Coordinator) (values : Dict String) : Work Names :=
  coordinator.addVariables coordinator.keeper.defaultName values true

/-! ## Updating secured variables -/

/-- Refuses a variable that the secret does not have. -/
def checkPresent (secret : String) (current : Data) (name : String) : Outcome Unit := do
  checkNotBlank .secured name
  if current.contains name then return () else throw (.variableNotFound secret name)

/-- Overwrites variables of a secret; a missing value is an empty one. -/
def updateVariables (coordinator : Coordinator) (secret : String)
    (values : Dict (Option String)) : Work Names := do
  let secret := coordinator.keeper.resolve secret
  Work.locked do
    let current ← Keeper.data secret true
    Operation.ofOutcome (checkEach (checkPresent secret current) values.keys)
    let _ ← Keeper.update secret (values.map fun _ value => value.getD "")
  recordAll (values.keys.map fun name => .secured name secret .update)
  return Names.ofKeys values

/-- Overwrites a variable of the default secret. -/
def updateDefault (coordinator : Coordinator) (name : String) (value : Option String) :
    Work String := do
  let _ ← coordinator.updateVariables coordinator.keeper.defaultName (Dict.ofList [(name, value)])
  return name

/-! ## Deleting secured variables -/

/-- The records of the deletion of those names that a secret had. -/
def deletions (secret : String) (before : Data) (names : Names) : List Audit.Record :=
  (names.keys.filter before.contains).map fun name => .secured name secret .delete

/-- Deletes variables from a secret. -/
def deleteVariables (coordinator : Coordinator) (secret : String) (names : Names)
    (logged : Bool) : Work Unit := do
  if names.isEmpty then return ()
  let secret := coordinator.keeper.resolve secret
  let before ← Work.locked do
    let current ← Keeper.data secret true
    let _ ← Keeper.remove secret names
    return current
  if logged then recordAll (deletions secret before names)

/-- Deletes variables from the default secret. -/
def deleteDefaults (coordinator : Coordinator) (names : Names) : Work Unit :=
  coordinator.deleteVariables coordinator.keeper.defaultName names true

/-! ## Deleting from several secrets -/

/-- The secrets that names stand for, each with all variables to be deleted from it. -/
def targets (keeper : Keeper) (requested : Dict Names) : Dict Names :=
  requested.entries.foldl (fun found request =>
    let secret := keeper.resolve request.1
    found.insert secret (((found.find? secret).getD Dict.empty).union request.2)) Dict.empty

/-- The removals that were started, and the failures so far by secret. -/
structure Issued where
  /-- the removals that were started, in order -/
  pending : List Keeper.Pending
  /-- why others were not -/
  failures : Dict String

/-- Starts the removals from those secrets that exist. -/
def issue (all : Dict Data) (issued : Issued) : List (String × Names) → Work Issued
  | [] => return issued
  | (secret, names) :: more => do
    if all.contains secret then
      match ← (Keeper.startRemoval secret names).attempt with
      | .ok pending => issue all { issued with pending := issued.pending ++ [pending] } more
      | .error _ =>
        let message := s!"Failed to delete variables from secret: {secret}"
        issue all { issued with failures := issued.failures.insert secret message } more
    else
      let message := (Error.secretNotFound secret).message
      issue all { issued with failures := issued.failures.insert secret message } more

/-- The failures by secret, with those among further outcomes. -/
def addFailures (failures : Dict String) :
    List (Keeper.Pending × Outcome Data) → Dict String
  | [] => failures
  | (_, .ok _) :: more => addFailures failures more
  | (pending, .error error) :: more =>
    addFailures (failures.insert pending.secret error.message) more

/-- The moment up to which removals are waited for. -/
def deadline (coordinator : Coordinator) : Work (Option (Nat × Span)) := do
  match coordinator.batchTimeout with
  | none => return none
  | some after => return some ((← Work.now) + after.millis, after)

/-- The records of the deletions from those secrets that did not fail. -/
def allDeletions (before : Dict Data) (failures : Dict String) (targets : Dict Names) :
    List Audit.Record :=
  targets.entries.flatMap fun target =>
    if failures.contains target.1 then []
    else deletions target.1 ((before.find? target.1).getD Dict.empty) target.2

/-- Deletes variables from several secrets at a time. Gives back the secrets that failed, in order
of their names; if all did, that is an error. -/
def deleteFromSecrets (coordinator : Coordinator) (requested : Dict Names) :
    Work (List SecretFailure) := do
  if requested.isEmpty then return []
  let targets := targets coordinator.keeper requested
  let (before, failures) ← Work.locked do
    let all ← coordinator.keeper.all
    let issued ← issue all ⟨[], Dict.empty⟩ targets.entries
    let bound ← coordinator.deadline
    let outcomes ← Keeper.awaitAll issued.pending bound
    return (all, addFailures issued.failures outcomes)
  recordAll (allDeletions before failures targets)
  let errors := failures.entries.map fun entry => SecretFailure.mk entry.1 entry.2
  if errors.length = targets.size then .fail (.allSecretsFailed errors) else return errors

/-! ## Common variables -/

/-- What became of a common variable that was written. -/
structure Written where
  /-- its name -/
  name : String
  /-- its value -/
  value : String
  /-- it was there before -/
  existed : Bool
  deriving DecidableEq

/-- All common variables. -/
def common (coordinator : Coordinator) : Work (Dict String) :=
  Work.ofStore coordinator.catalog.allVariables

/-- Checks a common variable before it is written; `secured` are the names in the default
secret. -/
def checkCommon (coordinator : Coordinator) (secured : Names) (name value : String) :
    Work Written := do
  if secured.contains name then .fail (.nameCollision name .secured)
  Operation.ofOutcome (checkNotBlank .common name)
  Operation.ofOutcome (checkWellFormed name)
  let before ← Work.ofStore (coordinator.catalog.findVariable name)
  return ⟨name, value, before.isSome⟩

/-- What is done to a common variable that is written. -/
def writeOf (imported : Bool) (written : Written) : Audit.Operation :=
  if imported then .imported
  else if written.existed then .update
  else .create

/-- Writes a common variable. -/
def addCommon (coordinator : Coordinator) (name value : String) : Work String := do
  Operation.ofOutcome (checkWellFormed name)
  let secured ← coordinator.defaultNames false
  let written ← coordinator.checkCommon secured name value
  Work.ofStore (coordinator.catalog.setVariable name value)
  Work.record (.common name (writeOf false written))
  return written.name

/-- Checks common variables one after the other. -/
def checkCommons (coordinator : Coordinator) (secured : Names) :
    List (String × String) → Work (List Written)
  | [] => return []
  | (name, value) :: more => do
    let written ← coordinator.checkCommon secured name value
    return written :: (← checkCommons coordinator secured more)

/-- Writes common variables, all or none. -/
def addCommons (coordinator : Coordinator) (values : Dict String) (imported : Bool) :
    Work (List Written) := do
  if values.isEmpty then return []
  let secured ← coordinator.defaultNames false
  let written ← coordinator.checkCommons secured values.entries
  Work.ofStore (coordinator.catalog.setVariables values)
  recordAll (written.map fun one => .common one.name (writeOf imported one))
  return written

/-- Writes common variables without checks and records. -/
def addUnlogged (coordinator : Coordinator) (values : Dict String) : Work Unit :=
  Work.ofStore (coordinator.catalog.setVariables values)

/-- Deletes common variables, all or none. -/
def deleteCommons (coordinator : Coordinator) (names : List String) : Work Unit := do
  Work.ofStore (coordinator.catalog.deleteVariables names)
  recordAll (names.map fun name => .common name .delete)

/-! ## Default variables -/

/-- Makes the default variables common ones: the default secret is created if need be, and loses
its variables of these names. -/
def restoreOnce (coordinator : Coordinator) (values : Dict String) : Work Unit := do
  let secret := coordinator.keeper.defaultName
  let _ ← coordinator.keeper.create secret
  coordinator.deleteVariables secret (Names.ofKeys values) false
  coordinator.addUnlogged values

/-- Makes the default variables common ones, with retries. -/
def restoreDefaults (coordinator : Coordinator) (values : Dict String) : Work Unit :=
  Retry.run coordinator.restorePolicy (coordinator.restoreOnce values)

end Coordinator

end EngineCatalog
