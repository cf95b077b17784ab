import EngineCatalog.Secret.Basic

/-!
# Secrets in memory

`Vault` is the state of a backend that holds its secrets in memory. `Vault.answer` answers the
calls; `Vault.finish` carries out a removal that was started.
-/

namespace EngineCatalog.Secret

/-- A secret with its label. -/
structure Stored where
  /-- the label -/
  label : Label
  /-- what it holds -/
  data : Data
  deriving DecidableEq

/-- All secrets of a backend. -/
structure Vault where
  /-- the secrets by name -/
  secrets : Dict Stored
  deriving DecidableEq

namespace Vault

/-- The backend without secrets. -/
def empty : Vault := ⟨Dict.empty⟩

/-- The secrets that carry a label. -/
def list (vault : Vault) (label : Label) : Dict Data :=
  (vault.secrets.filter fun _ secret => secret.label = label).map fun _ secret => secret.data

/-- What a secret holds, if it exists. -/
def read (vault : Vault) (name : String) : Option Data :=
  (vault.secrets.find? name).map Stored.data

/-- Creates a secret. -/
def create (vault : Vault) (name : String) (label : Label) (data : Data) :
    Outcome Unit × Vault :=
  if vault.secrets.contains name then (.error (.secretExists name), vault)
  else (.ok (), ⟨vault.secrets.insert name ⟨label, data⟩⟩)

/-- Changes what a secret holds, and gives back what it holds then. -/
def modify (vault : Vault) (name : String) (change : Data → Data) : Outcome Data × Vault :=
  match vault.secrets.find? name with
  | none => (.error (.secretNotFound name), vault)
  | some secret =>
    let data := change secret.data
    (.ok data, ⟨vault.secrets.insert name { secret with data := data }⟩)

/-- Puts texts into a secret. -/
def merge (vault : Vault) (name : String) (data : Data) : Outcome Data × Vault :=
  vault.modify name fun current => current.union data

/-- Removes texts from a secret. -/
def remove (vault : Vault) (name : String) (keys : Names) : Outcome Data × Vault :=
  vault.modify name fun current => current.filter fun key _ => !keys.contains key

/-- The answer to a call, and the secrets after it. -/
def answer (vault : Vault) : (call : Call) → call.Answer × Vault
  | .list label => (.ok (vault.list label), vault)
  | .read name => (.ok (vault.read name), vault)
  | .create name label data => vault.create name label data
  | .add name data _ => vault.merge name data
  | .update name data => vault.merge name data
  | .remove name keys => vault.remove name keys

/-- Carries out a removal that was started. -/
def finish (vault : Vault) (name : String) (keys : Names) : Removal × Vault :=
  match vault.remove name keys with
  | (.ok rest, after) => (.done rest, after)
  | (.error error, after) =>
    (.rejected (if error.isNotFound then 404 else 500) error.message, after)

end Vault

end EngineCatalog.Secret
