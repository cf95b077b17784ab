import EngineCatalog.Program

/-!
# The key-value store as its users see it

The store holds bytes under keys. Every change of it has an index, and every read comes with the
index of the last change of what is read, so that a reader can wait for the next one.

* `Entry`, `Listing` — a stored key, and what a read gives back.
* `Change` — a member of a transaction.
* `Call` — the six calls of the store; `keyValue` is the signature of programs that make them.
-/

namespace EngineCatalog.KeyValue

open Text (Bytes)

/-- A stored key. -/
structure Entry where
  /-- the key -/
  key : String
  /-- its value; a key that stands for a folder has none -/
  value : Option Bytes
  /-- the index of its last change -/
  modified : Nat
  deriving DecidableEq

/-- The value as text; what is not UTF-8 in it is replaced. -/
def Entry.text? (entry : Entry) : Option String :=
  entry.value.map Text.decodeLossy

/-- The value as text, empty if there is none. -/
def Entry.text (entry : Entry) : String :=
  entry.text?.getD ""

/-- What a read gives back. -/
structure Listing where
  /-- the index of the last change of what was read -/
  index : Nat
  /-- the keys that were read, in order -/
  entries : List Entry
  deriving DecidableEq

/-- A member of a transaction. -/
inductive Change where
  /-- a key is set to a value -/
  | set (key : String) (value : Bytes)
  /-- a key is deleted -/
  | delete (key : String)
  deriving DecidableEq

/-- The key that a change is about. -/
def Change.key : Change → String
  | .set key _ => key
  | .delete key => key

/-- A call of the store. A call is about one key, or about all keys that start with a path. -/
inductive Call where
  /-- reads what is there; finding nothing is an error -/
  | read (path : String) (all : Bool)
  /-- waits until the index differs from the one given, but no longer than a span, and reads what
  is there then; at index 0 it does not wait, and finding nothing is no error -/
  | await (path : String) (all : Bool) (since : Nat) (wait : Span)
  /-- sets a key -/
  | put (path : String) (value : Bytes)
  /-- deletes -/
  | delete (path : String) (all : Bool)
  /-- applies changes, all or none -/
  | transact (changes : List Change)
  /-- reads several keys; keys that are not there are left out -/
  | readMany (paths : List String)
  deriving DecidableEq

/-- The answers to a call. -/
@[reducible] def Call.Answer : Call → Type
  | .read _ _ => Outcome Listing
  | .await _ _ _ _ => Outcome Listing
  | .put _ _ => Outcome Unit
  | .delete _ _ => Outcome Unit
  | .transact _ => Outcome Unit
  | .readMany _ => Outcome (List Entry)

/-- Programs that call the store. -/
abbrev keyValue : Signature := ⟨Call, Call.Answer⟩

/-! ## Calls as operations -/

/-- Reads a key, or all keys that start with a path. -/
def read (path : String) (all : Bool) : Operation keyValue Listing :=
  .call (σ := keyValue) (Call.read path all) id

/-- Waits for a change. -/
def await (path : String) (all : Bool) (since : Nat) (wait : Span) :
    Operation keyValue Listing :=
  .call (σ := keyValue) (Call.await path all since wait) id

/-- Sets a key. -/
def put (path : String) (value : Bytes) : Operation keyValue Unit :=
  .call (σ := keyValue) (Call.put path value) id

/-- Deletes a key, or all keys that start with a path. -/
def delete (path : String) (all : Bool) : Operation keyValue Unit :=
  .call (σ := keyValue) (Call.delete path all) id

/-- Applies changes, all or none. -/
def transact (changes : List Change) : Operation keyValue Unit :=
  .call (σ := keyValue) (Call.transact changes) id

/-- Reads several keys. -/
def readMany (paths : List String) : Operation keyValue (List Entry) :=
  .call (σ := keyValue) (Call.readMany paths) id

end EngineCatalog.KeyValue
