import EngineCatalog.Payload
import EngineCatalog.Span

/-!
# What can go wrong

`Error` lists the causes for which an operation fails: of the key-value store and its payloads, of
the secrets, of the rules for variables, of the settings, and of retrying.

* `Error.message` — the words for a cause.
* `Error.isRetryable` — trying again may help: the store or the secrets could not be reached or did
  not answer well, or a payload does not decode and will be written again.
* `Error.isNotFound` — something was asked for that is not there. Lenient callers take that for an
  empty result.
-/

namespace EngineCatalog

/-! ## Parts of errors -/

/-- A key of a batch whose value does not decode. -/
structure UndecodedKey where
  /-- the key -/
  key : String
  /-- what is wrong with its value -/
  reason : String
  deriving DecidableEq

/-- What of a batch decoded, although not all of it did. -/
inductive Decoded where
  /-- nothing is kept -/
  | nothing
  /-- the reports of some engines -/
  | engines (states : List EngineState)
  /-- the properties of some chains -/
  | chains (chains : Dict ChainProperties)

/-- A batch of which some keys do not decode. Every key was tried. -/
structure DecodeFailure where
  /-- what was being read -/
  resource : String
  /-- the keys that do not decode, in the order of the batch -/
  failures : List UndecodedKey
  /-- the rest of the batch -/
  decoded : Decoded

/-- The words for a batch that does not decode: how many keys, and which. -/
def DecodeFailure.message (failure : DecodeFailure) : String :=
  let keys := ", ".intercalate (failure.failures.map UndecodedKey.key)
  s!"Failed to decode {failure.resource} for {failure.failures.length} key(s): " ++ keys

/-- The two halves of the namespace of variables. -/
inductive VariableKind where
  /-- a variable in the key-value store -/
  | common
  /-- a variable in a secret -/
  | secured
  deriving DecidableEq

/-- The name of a half. -/
def VariableKind.text : VariableKind → String
  | .common => "Common"
  | .secured => "Secured"

/-- The failure of one secret within an operation on several. -/
structure SecretFailure where
  /-- the secret -/
  secret : String
  /-- the words for what went wrong -/
  message : String
  deriving DecidableEq

/-! ## Errors -/

/-- Why an operation fails. -/
inductive Error where
  /-- no key matches the path -/
  | notFound (path : String)
  /-- stored payloads that do not decode -/
  | undecodable (failure : DecodeFailure)
  /-- the store answers in a shape that the protocol does not allow -/
  | protocolViolation (path reason : String)
  /-- the store cannot be reached -/
  | transport (message : String)
  /-- the store answers with a status that is no success -/
  | http (path : String) (status : Nat) (message : String)
  /-- members of a transaction are rejected -/
  | rejected (errors : List String)
  /-- a payload cannot be written -/
  | unwritable (fault : Json.Fault)
  /-- there is no such secret -/
  | secretNotFound (name : String)
  /-- a secret of that name exists already -/
  | secretExists (name : String)
  /-- the backend of the secrets rejects a call -/
  | secretBackend (secret : String) (status : Nat) (message : String)
  /-- an update of a secret is not completed in time -/
  | secretTimeout (secret : String) (after : Span)
  /-- a variable of that name exists already in one half -/
  | nameCollision (name : String) (existing : VariableKind)
  /-- a variable's name is blank -/
  | emptyName (kind : VariableKind)
  /-- a common variable's name has characters that are not allowed -/
  | malformedName (name : String)
  /-- a secret has no such variable -/
  | variableNotFound (secret name : String)
  /-- none of the secrets of an operation on several succeeded -/
  | allSecretsFailed (errors : List SecretFailure)
  /-- settings that are not allowed -/
  | invalidSettings (message : String)
  /-- an attempt took too long -/
  | retryTimeout (after : Span)
  /-- no attempt was allowed -/
  | retryFailed (message : String)
  /-- a failure beyond repair -/
  | fatal (message : String)

namespace Error

/-- The words for an error. -/
def message : Error → String
  | .notFound path => s!"KV not found: {path}"
  | .undecodable failure => failure.message
  | .protocolViolation path reason => s!"Protocol violation at {path}: {reason}"
  | .transport message => s!"KV transport failure: {message}"
  | .http path status message => s!"KV request to {path} failed with status {status}: {message}"
  | .rejected errors => "KV transaction rejected: " ++ "; ".intercalate errors
  | .unwritable fault => s!"Failed to encode value: {fault.message}"
  | .secretNotFound name => s!"Secret with name {name} not found"
  | .secretExists name => s!"Secret with name {name} already exists"
  | .secretBackend secret status message =>
    s!"Secret backend failure on {secret} (status {status}): {message}"
  | .secretTimeout secret after =>
    s!"Update of secret {secret} did not complete within {after.text}"
  | .nameCollision name existing => s!"{existing.text} variable with name {name} already exists"
  | .emptyName kind => s!"{kind.text} variable's name is empty"
  | .malformedName name => s!"Variable name {name} is malformed"
  | .variableNotFound secret name => s!"Cannot find variable {name} in secret {secret}"
  | .allSecretsFailed _ => "Failed to delete variables from multiple secrets"
  | .invalidSettings message => message
  | .retryTimeout after => s!"Retry timeout after {after.text}"
  | .retryFailed message => message
  | .fatal message => s!"Fatal error: {message}"

/-- Trying again may help. -/
def isRetryable : Error → Bool
  | .transport _ => true
  | .http _ _ _ => true
  | .undecodable _ => true
  | .retryTimeout _ => true
  | .secretTimeout _ _ => true
  | .secretBackend _ status _ => 500 ≤ status
  | _ => false

/-- What was asked for is not there. -/
def isNotFound : Error → Bool
  | .notFound _ => true
  | .secretNotFound _ => true
  | _ => false

/-- The error is that stored payloads do not decode. -/
def isUndecodable : Error → Bool
  | .undecodable _ => true
  | _ => false

end Error

/-- What an operation gives back. -/
abbrev Outcome (α : Type) : Type := Except Error α

end EngineCatalog
