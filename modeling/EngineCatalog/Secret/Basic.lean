import EngineCatalog.Error

/-!
# Secrets as their users see them

A secret holds named texts and carries a label, by which the secrets of the catalog are told from
others.

* `Label`, `Data` — a label, and what a secret holds.
* `Call` — the calls of the backend that are answered at once, with their answers.
* `Removal` — what comes of a removal that is only started, and is answered later.
-/

namespace EngineCatalog.Secret

/-- A label of a secret. -/
structure Label where
  /-- its key -/
  key : String
  /-- its value -/
  value : String
  deriving DecidableEq

/-- What a secret holds. -/
abbrev Data : Type := Dict String

/-- A call of the backend. -/
inductive Call where
  /-- lists the secrets that carry a label -/
  | list (label : Label)
  /-- reads a secret, if it exists -/
  | read (name : String)
  /-- creates a secret; its name must be free -/
  | create (name : String) (label : Label) (data : Data)
  /-- adds to a secret; `initial` says that it was empty -/
  | add (name : String) (data : Data) (initial : Bool)
  /-- overwrites what a secret holds -/
  | update (name : String) (data : Data)
  /-- removes from a secret -/
  | remove (name : String) (keys : Names)

/-- The answers to a call. -/
@[reducible] def Call.Answer : Call → Type
  | .list _ => Outcome (Dict Data)
  | .read _ => Outcome (Option Data)
  | .create _ _ _ => Outcome Unit
  | .add _ _ _ => Outcome Data
  | .update _ _ => Outcome Data
  | .remove _ _ => Outcome Data

/-- What comes of a removal that was started. -/
inductive Removal where
  /-- it is done, and this is left -/
  | done (rest : Data)
  /-- the backend rejects it -/
  | rejected (status : Nat) (message : String)
  /-- the backend never says what came of it -/
  | abandoned

/-- The outcome of a removal from a secret. -/
def Removal.outcome (secret : String) : Removal → Outcome Data
  | .done rest => .ok rest
  | .rejected status message => .error (.secretBackend secret status message)
  | .abandoned =>
    .error (.secretBackend secret 500 "secret update abandoned without an outcome")

end EngineCatalog.Secret
