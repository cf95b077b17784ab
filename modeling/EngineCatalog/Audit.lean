import EngineCatalog.Text.Quoted

/-!
# The audit trail

Every change of a secret or a variable that a user can see leaves a record: what was done to which
entity, and within which other entity that one lies.

* `Audit.Record` — a record, with the constructors `of`, `secured`, `common` and `within`.
* `Audit.Record.event` — the event that is logged for a record, as its fields and their texts.
-/

namespace EngineCatalog.Audit

/-- What is done to an entity. -/
inductive Operation where
  /-- it is created -/
  | create
  /-- it is changed -/
  | update
  /-- it is deleted -/
  | delete
  /-- it is imported -/
  | imported
  deriving DecidableEq

/-- The name of an operation. -/
def Operation.text : Operation → String
  | .create => "CREATE"
  | .update => "UPDATE"
  | .delete => "DELETE"
  | .imported => "IMPORT"

/-- What something is done to. -/
inductive Entity where
  /-- a secret -/
  | secret
  /-- a variable within a secret -/
  | securedVariable
  /-- a variable in the key-value store -/
  | commonVariable
  deriving DecidableEq

/-- The name of a kind of entity. -/
def Entity.text : Entity → String
  | .secret => "SECRET"
  | .securedVariable => "SECURED_VARIABLE"
  | .commonVariable => "COMMON_VARIABLE"

/-- The name of a kind of entity as one word. -/
def Entity.word : Entity → String
  | .secret => "Secret"
  | .securedVariable => "SecuredVariable"
  | .commonVariable => "CommonVariable"

/-- A record of the audit trail. -/
structure Record where
  /-- what was done -/
  operation : Operation
  /-- to what kind of entity -/
  entity : Entity
  /-- the name of the entity -/
  name : String
  /-- the entity within which it lies -/
  parent : Option (Entity × String)
  deriving DecidableEq

namespace Record

/-- The record of something done to an entity that lies in no other. -/
def of (entity : Entity) (name : String) (operation : Operation) : Record :=
  ⟨operation, entity, name, none⟩

/-- The record with another parent. -/
def within (record : Record) (entity : Entity) (name : String) : Record :=
  { record with parent := some (entity, name) }

/-- The record of something done to a variable within a secret. -/
def secured (name secret : String) (operation : Operation) : Record :=
  (of .securedVariable name operation).within .secret secret

/-- The record of something done to a variable in the key-value store. -/
def common (name : String) (operation : Operation) : Record :=
  of .commonVariable name operation

/-- A value that may be missing, as an event shows it. -/
def optionText : Option String → String
  | none => "None"
  | some text => s!"Some({text})"

/-- The fields of the event that is logged for a record, with their texts. -/
def event (record : Record) : List (String × String) := [
  ("message", s!"{record.operation.text} {record.entity.text} {record.name}"),
  ("operation", record.operation.text),
  ("entity_type", record.entity.text),
  ("entity_name", record.name),
  ("parent_type", optionText (record.parent.map fun parent => parent.1.word)),
  ("parent_name", optionText (record.parent.map fun parent => Text.quote parent.2))]

end Record

end EngineCatalog.Audit
