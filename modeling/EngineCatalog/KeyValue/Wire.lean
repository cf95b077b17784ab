import EngineCatalog.Json.Printer
import EngineCatalog.Json.Record
import EngineCatalog.KeyValue.Basic
import EngineCatalog.Layout.Key
import EngineCatalog.Text.Base64
import EngineCatalog.Text.Blank

/-!
# The key-value store on the wire

What travels between the catalog and a key-value store that is reached over HTTP. Keys travel
without the slash they start with, and values as base64.

* `Request`, `Response` — messages; `http` is the signature of programs that send them.
* `Pair` — a stored key as the store lists it.
* `Step` — a member of a transaction as it is sent.
* `Results`, `Refusals` — the answer to a transaction, accepted or not.
-/

namespace EngineCatalog.KeyValue

open Json (Reader Record)
open Text (Bytes)

/-! ## Messages -/

/-- What a request does. -/
inductive Method where
  /-- it reads -/
  | get
  /-- it writes -/
  | put
  /-- it deletes -/
  | delete
  deriving DecidableEq

/-- A request. -/
structure Request where
  /-- what it does -/
  method : Method
  /-- where it goes -/
  url : String
  /-- what it carries -/
  body : Option Bytes
  /-- how long it may take -/
  timeout : Span
  deriving DecidableEq

/-- A response. -/
structure Response where
  /-- its status -/
  status : Nat
  /-- its headers; their names are in lower case -/
  headers : Dict String
  /-- what it carries -/
  body : Bytes

/-- What a response carries, as text without white space around it. -/
def Response.text (response : Response) : String :=
  Text.trim (Text.decodeLossy response.body)

/-- Programs that send requests. -/
def http : Signature := ⟨Request, fun _ => Outcome Response⟩

/-- Sends a request. -/
def send (request : Request) : Operation http Response :=
  .call (σ := http) request id

/-! ## Listings -/

/-- A stored key as the store lists it. -/
structure Pair where
  /-- the key, without the slash it starts with -/
  key : String
  /-- the value as base64 -/
  value : Option String
  /-- the index of the last change -/
  modified : Nat
  deriving DecidableEq

/-- The shape of a listed key. -/
def Pair.record : Record Pair where
  title := "struct ConsulKvPair"
  blank := ⟨"", none, 0⟩
  fields := [
    ⟨"Key", true, Reader.text.map fun text pair => { pair with key := text }⟩,
    ⟨"Value", false, (Reader.optional Reader.text).map fun text pair =>
      { pair with value := text }⟩,
    ⟨"ModifyIndex", false, (Reader.word "u64").map fun n pair => { pair with modified := n }⟩]

/-- The key that is listed, with its value read. -/
def Pair.entry (pair : Pair) : Outcome Entry :=
  match pair.value with
  | none => .ok ⟨"/" ++ pair.key, none, pair.modified⟩
  | some text =>
    match Text.decodeBase64 text with
    | .ok bytes => .ok ⟨"/" ++ pair.key, some bytes, pair.modified⟩
    | .error fault =>
      .error (.protocolViolation pair.key s!"value is not base64: {fault.message}")

/-- The listed keys with their values read; the first that cannot be read counts. -/
def entriesOf : List Pair → Outcome (List Entry)
  | [] => .ok []
  | pair :: more => do
    let entry ← pair.entry
    return entry :: (← entriesOf more)

/-- Reads a listing of what is stored at a path. The reason for which it cannot be read tells the
fault, but not the place in the body at which the reader stopped. -/
def readListing (path : String) (body : Bytes) : Outcome (List Entry) :=
  match (Reader.list Pair.record.reader).run body with
  | .ok pairs => entriesOf pairs
  | .error fault => .error (.protocolViolation path s!"malformed KV listing: {fault.message}")

/-! ## Transactions -/

/-- A member of a transaction as it is sent. -/
structure Step where
  /-- what it does -/
  verb : String
  /-- the key, without the slash it starts with -/
  key : String
  /-- the value as base64 -/
  value : Option String
  deriving DecidableEq

namespace Step

/-- The member that makes a change. -/
def ofChange : Change → Step
  | .set key value => ⟨"set", bareKey key, some (Text.encodeBase64 value)⟩
  | .delete key => ⟨"delete", bareKey key, none⟩

/-- The member that reads a key. It reads all keys that start with it: reading one key that is not
there would make the whole transaction fail. -/
def ofPath (path : String) : Step :=
  ⟨"get-tree", bareKey path, none⟩

/-- A member as JSON. -/
def toJson (step : Step) : Json :=
  let value := match step.value with
    | none => []
    | some text => [("Value", Json.text text)]
  .object [("KV", .object ([("Verb", .text step.verb), ("Key", .text step.key)] ++ value))]

/-- The members of a transaction, as they are sent. -/
def writeAll (steps : List Step) : Bytes :=
  Json.write (.list (steps.map toJson))

end Step

/-- One result of a transaction: a key that was read, if any. -/
def resultRecord : Record (Option Pair) where
  title := "struct TxnResult"
  blank := none
  fields := [⟨"KV", false, (Reader.optional Pair.record.reader).map fun pair _ => pair⟩]

/-- The shape of the answer to a transaction that is accepted. -/
def resultsRecord : Record (List (Option Pair)) where
  title := "struct TxnReadResponse"
  blank := []
  fields := [⟨"Results", false,
    (Reader.optional (Reader.list resultRecord.reader)).map fun results _ => results.getD []⟩]

/-- Where an answer to a transaction comes from. -/
def transactionPath : String := "/v1/txn"

/-- Reads the keys that the answer to a transaction lists. The reason for which it cannot be read
tells the fault without its place, as for a listing. -/
def readResults (body : Bytes) : Outcome (List Pair) :=
  match resultsRecord.reader.run body with
  | .ok results => .ok (results.filterMap id)
  | .error fault =>
    .error (.protocolViolation transactionPath s!"malformed transaction result: {fault.message}")

/-- Why a member of a transaction is refused. -/
structure Refusal where
  /-- the place of the member within the transaction -/
  place : Nat
  /-- what is wrong with it -/
  what : String
  deriving DecidableEq

/-- The shape of a refusal. -/
def Refusal.record : Record Refusal where
  title := "struct TxnOpError"
  blank := ⟨0, ""⟩
  fields := [
    ⟨"OpIndex", false, (Reader.word "usize").map fun n refusal => { refusal with place := n }⟩,
    ⟨"What", false, Reader.text.map fun text refusal => { refusal with what := text }⟩]

/-- The shape of the answer to a transaction that is refused. -/
def refusalsRecord : Record (List Refusal) where
  title := "struct TxnErrorResponse"
  blank := []
  fields := [⟨"Errors", false, (Reader.list Refusal.record.reader).map fun errors _ => errors⟩]

/-- The refusals that an answer lists; none if it cannot be read. -/
def readRefusals (body : Bytes) : List Refusal :=
  match refusalsRecord.reader.run body with
  | .ok refusals => refusals
  | .error _ => []

end EngineCatalog.KeyValue
