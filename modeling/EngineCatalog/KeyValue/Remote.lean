import EngineCatalog.KeyValue.Wire
import EngineCatalog.Settings.Basic
import EngineCatalog.Text.Blank

/-!
# A key-value store reached over HTTP

`Remote` is the client of a store that is reached over HTTP. Each call of the store is a program
that sends requests (`Remote.answer`).

* `Remote.keyUrl` — the address of a key, with what a read of it asks for.
* `Remote.listing` — a read. The index comes in a header, and a wait that finds nothing is no error.
* `Remote.transact`, `Remote.readMany` — transactions. The store takes so many members at a time;
  longer ones are sent in chunks one after the other, up to the first that fails.

The store may hold back the answer to a wait by a sixteenth of its time; the request may take that
much longer.
-/

namespace EngineCatalog.KeyValue

open Text (Bytes)

/-- The client of a store that is reached over HTTP. -/
structure Remote where
  /-- the base address, without a slash at its end -/
  address : String
  /-- how long a request may take that does not wait -/
  timeout : Span
  /-- how many members a transaction may have, one at least -/
  batch : Nat
  deriving DecidableEq

namespace Remote

/-- The text without the slashes at its end. -/
def trimEnd (text : String) : String :=
  String.ofList (text.toList.reverse.dropWhile (· = '/')).reverse

/-- The client for some settings. -/
def of (settings : StoreSettings) : Remote :=
  ⟨trimEnd settings.address, settings.requestTimeout, max settings.batchSize 1⟩

/-- A wait for a change: the index that is known, and how long to wait. -/
abbrev Wait : Type := Nat × Span

/-! ## Addresses -/

/-- What a request for a key asks for. -/
def parameters (all : Bool) (wait : Option Wait) : List String :=
  (if all then ["recurse=true"] else []) ++
    match wait with
    | none => []
    | some (since, span) => [s!"index={since}", s!"wait={span.waitText}"]

/-- The address of a key, with what the request asks for. -/
def keyUrl (remote : Remote) (path : String) (all : Bool) (wait : Option Wait) : String :=
  let url := remote.address ++ "/v1/kv/" ++ bareKey path
  match parameters all wait with
  | [] => url
  | parameters => url ++ "?" ++ "&".intercalate parameters

/-- The address of transactions. -/
def transactionUrl (remote : Remote) : String :=
  remote.address ++ transactionPath

/-! ## Reading -/

/-- The header that carries the index. -/
def indexHeader : String := "x-consul-index"

/-- The index that a response carries. -/
def indexOf (path : String) (response : Response) : Outcome Nat :=
  match response.headers.find? indexHeader with
  | none => .error (.protocolViolation path s!"missing or invalid {indexHeader} header")
  | some text =>
    match Text.readWord (Text.trim text) with
    | .ok index => .ok index
    | .error _ => .error (.protocolViolation path s!"missing or invalid {indexHeader} header")

/-- The error of a status that is no success. -/
def statusError (path : String) (response : Response) : Error :=
  .http path response.status response.text

/-- What a response to a read gives. -/
def listing (path : String) (waited : Bool) (response : Response) : Outcome Listing :=
  if response.status = 200 then do
    let index ← indexOf path response
    let entries ← readListing path response.body
    return ⟨index, entries⟩
  else if response.status = 404 then
    if waited then do return ⟨← indexOf path response, []⟩
    else .error (.notFound path)
  else .error (statusError path response)

/-- How long a read may take; none if no span is that long. -/
def readTimeout (remote : Remote) : Option Wait → Option Span
  | none => some remote.timeout
  | some (_, span) => do (← span.add? span.sixteenth).add? remote.timeout

/-- Reads a key, or all keys that start with a path, at once or after a wait. -/
def fetch (remote : Remote) (path : String) (all : Bool) (wait : Option Wait) :
    Operation http Listing :=
  match remote.readTimeout wait with
  | none => .overflow
  | some timeout => do
    let response ← send ⟨.get, remote.keyUrl path all wait, none, timeout⟩
    .ofOutcome (listing path wait.isSome response)

/-! ## Writing keys -/

/-- Sets a key. -/
def put (remote : Remote) (path : String) (value : Bytes) : Operation http Unit := do
  let response ← send ⟨.put, remote.keyUrl path false none, some value, remote.timeout⟩
  if response.status ≠ 200 then .fail (statusError path response)
  else if response.text = "false" then .fail (.http path 200 "write was not applied")
  else return ()

/-- Deletes a key, or all keys that start with a path. -/
def delete (remote : Remote) (path : String) (all : Bool) : Operation http Unit := do
  let response ← send ⟨.delete, remote.keyUrl path all none, none, remote.timeout⟩
  if response.status = 200 then return () else .fail (statusError path response)

/-! ## Transactions -/

/-- The messages for refusals, their places counted from the first member of all chunks; none if
that sum is too large. -/
def refusalTexts (before : Nat) : List Refusal → Option (List String)
  | [] => some []
  | refusal :: more =>
    if before + refusal.place < Nat.pow 2 64 then do
      let place := before + refusal.place
      return s!"op {place}: {refusal.what}" :: (← refusalTexts before more)
    else none

/-- The error of a transaction that is refused. -/
def rejection (before : Nat) (response : Response) : Option Error := do
  let texts ← refusalTexts before (readRefusals response.body)
  return .rejected (if texts.isEmpty then [response.text] else texts)

/-- Sends one chunk; `before` members were sent before it. -/
def sendChunk (remote : Remote) (before : Nat) (steps : List Step) : Operation http Response := do
  let response ← send
    ⟨.put, remote.transactionUrl, some (Step.writeAll steps), remote.timeout⟩
  if response.status = 200 then return response
  else if response.status = 409 then
    match rejection before response with
    | some error => .fail error
    | none => .overflow
  else .fail (statusError transactionPath response)

/-- The items in chunks of a size; the bound is that of the number of chunks. -/
def chunksWithin {α : Type} (size : Nat) : Nat → List α → List (List α)
  | 0, _ => []
  | _, [] => []
  | bound + 1, items => items.take size :: chunksWithin size bound (items.drop size)

/-- The items in chunks of a size, the last one possibly shorter. -/
def chunks {α : Type} (size : Nat) (items : List α) : List (List α) :=
  chunksWithin size items.length items

/-- Sends chunks of changes one after the other. -/
def sendChanges (remote : Remote) (before : Nat) : List (List Change) → Operation http Unit
  | [] => return ()
  | chunk :: more => do
    let _ ← remote.sendChunk before (chunk.map Step.ofChange)
    sendChanges remote (before + remote.batch) more

/-- Applies changes, each chunk all or none. -/
def transact (remote : Remote) (changes : List Change) : Operation http Unit :=
  remote.sendChanges 0 (chunks remote.batch changes)

/-- The keys asked for, among all those that start with one of them. -/
def requested (paths : List String) : List Pair → Outcome (List Entry)
  | [] => .ok []
  | pair :: more => do
    let entry ← pair.entry
    let others ← requested paths more
    return if paths.contains entry.key then entry :: others else others

/-- Reads chunks of keys one after the other. -/
def readChunks (remote : Remote) (before : Nat) : List (List String) → Operation http (List Entry)
  | [] => return []
  | chunk :: more => do
    let response ← remote.sendChunk before (chunk.map Step.ofPath)
    let pairs ← Operation.ofOutcome (readResults response.body)
    let entries ← Operation.ofOutcome (requested chunk pairs)
    return entries ++ (← readChunks remote (before + remote.batch) more)

/-- Reads several keys, each chunk at one moment. -/
def readMany (remote : Remote) (paths : List String) : Operation http (List Entry) :=
  remote.readChunks 0 (chunks remote.batch paths)

/-! ## Calls -/

/-- The program that answers a call. -/
def answer (remote : Remote) : (call : Call) → Program http call.Answer
  | .read path all => (remote.fetch path all none).run
  | .await path all since span => (remote.fetch path all (some (since, span))).run
  | .put path value => (remote.put path value).run
  | .delete path all => (remote.delete path all).run
  | .transact changes => (remote.transact changes).run
  | .readMany paths => (remote.readMany paths).run

end Remote

end EngineCatalog.KeyValue
