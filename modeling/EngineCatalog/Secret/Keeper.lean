import EngineCatalog.Effect
import EngineCatalog.Settings.Basic
import EngineCatalog.Text.Blank

/-!
# The keeper of the secrets

`Keeper` is the catalog's way to the secrets: it knows the label of the secrets that belong to the
catalog, and which of them holds secured variables where no other is named. A blank name and the
word `default`, in any case of its letters, stand for that one.
-/

namespace EngineCatalog

open Secret (Data Label)

/-- The catalog's way to the secrets. -/
structure Keeper where
  /-- the label of the secrets that belong to the catalog -/
  label : Label
  /-- the secret that holds secured variables where no other is named -/
  defaultName : String
  deriving DecidableEq

namespace Keeper

/-- The value of the label. -/
def labelValue : String := "secured"

/-- The keeper for some settings. -/
def of (settings : SecretSettings) : Keeper :=
  ⟨⟨settings.label, labelValue⟩, settings.defaultName⟩

/-- The name is that of the default secret. -/
def isDefault (keeper : Keeper) (name : String) : Bool :=
  keeper.defaultName = name

/-- The word that stands for the default secret. -/
def defaultAlias : String := "default"

/-- The secret that a name stands for. -/
def resolve (keeper : Keeper) (name : String) : String :=
  if Text.isBlank name || name.toList.map Char.toLower = defaultAlias.toList then
    keeper.defaultName
  else name

/-- What all secrets of the catalog hold. -/
def all (keeper : Keeper) : Work (Dict Data) :=
  Work.secrets (.list keeper.label) id

/-- What a secret holds. A secret that does not exist is an error only under `strict`. -/
def data (name : String) (strict : Bool) : Work Data := do
  match ← Work.secrets (.read name) id with
  | some data => return data
  | none => if strict then .fail (.secretNotFound name) else return Dict.empty

/-- Creates an empty secret; false if it exists already. -/
def create (keeper : Keeper) (name : String) : Work Bool := do
  match ← Work.secrets (.read name) id with
  | some _ => return false
  | none =>
    Work.secrets (.create name keeper.label Dict.empty) id
    Work.record (.of .secret name .create)
    return true

/-- Adds to a secret. -/
def add (name : String) (data : Data) (initial : Bool) : Work Data :=
  Work.secrets (.add name data initial) id

/-- Overwrites what a secret holds. -/
def update (name : String) (data : Data) : Work Data :=
  Work.secrets (.update name data) id

/-- Removes from a secret. -/
def remove (name : String) (keys : Names) : Work Data :=
  Work.secrets (.remove name keys) id

/-- A removal that was started. -/
structure Pending where
  /-- the secret -/
  secret : String
  /-- by what the removal is known -/
  ticket : Nat

/-- Starts a removal, which goes on whether or not it is waited for. -/
def startRemoval (name : String) (keys : Names) : Work Pending := do
  let ticket ← Operation.call (σ := effects) (Effect.startRemoval name keys) id
  return ⟨name, ticket⟩

/-- The outcome of a removal that is waited for no longer than a span. -/
def Pending.outcome (pending : Pending) (after : Span) : Option Secret.Removal → Outcome Data
  | some removal => removal.outcome pending.secret
  | none => .error (.secretTimeout pending.secret after)

/-- Waits for what comes of removals, until all are answered. If there is a bound, it is the moment
up to which they are waited for, with the span that it lies after their start. -/
def awaitAll (pending : List Pending) (bound : Option (Nat × Span)) :
    Work (List (Pending × Outcome Data)) :=
  let after := (bound.map Prod.snd).getD ⟨0⟩
  .tell (σ := effects)
    (Effect.awaitRemovals (pending.map Pending.ticket) (bound.map Prod.fst)) fun removals =>
      List.zipWith (fun one removal => (one, one.outcome after removal)) pending removals

/-- Waits for what comes of a removal. -/
def Pending.await (pending : Pending) : Work Data :=
  .call (σ := effects) (Effect.awaitRemovals [pending.ticket] none) fun removals =>
    ((List.head? removals).join.getD .abandoned).outcome pending.secret

end Keeper

end EngineCatalog
