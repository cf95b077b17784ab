import EngineCatalog.KeyValue.Basic
import EngineCatalog.Layout.Key
import EngineCatalog.Text.Blank
import EngineCatalog.Text.Numeral

/-!
# Reading what is stored

What the store holds below a path is read entry by entry. A `Verdict` says of one entry whether it
is passed over, what it decodes to, or why it does not decode.

* `collect` — reads a whole batch: every entry is tried, and if one fails all failures are reported
  together, with what decoded beside them.
* `deploymentTime`, `engineStates`, `chainProperties`, `valuesOf` — the batches of the catalog.
-/

namespace EngineCatalog.Catalog

open KeyValue (Entry)

/-! ## Batches -/

/-- What becomes of one entry. -/
inductive Verdict (α : Type) where
  /-- the entry is none of those that are read -/
  | skipped
  /-- what it decodes to -/
  | decoded (value : α)
  /-- why it does not decode -/
  | failed (reason : String)

variable {α : Type}

/-- What an entry decodes to, if it does. -/
def Verdict.value? : Verdict α → Option α
  | .decoded value => some value
  | _ => none

/-- Why an entry does not decode, if it does not. -/
def Verdict.reason? : Verdict α → Option String
  | .failed reason => some reason
  | _ => none

/-- What the entries decode to, in order. -/
def decoded (judge : Entry → Verdict α) (entries : List Entry) : List α :=
  entries.filterMap fun entry => (judge entry).value?

/-- The entries that do not decode, in order. -/
def failures (judge : Entry → Verdict α) (entries : List Entry) : List UndecodedKey :=
  entries.filterMap fun entry => (judge entry).reason?.map fun reason => ⟨entry.key, reason⟩

/-- What the entries decode to, or all those that do not decode with the rest. -/
def collect (resource : String) (judge : Entry → Verdict α) (rest : List α → Decoded)
    (entries : List Entry) : Outcome (List α) :=
  if (failures judge entries).isEmpty then .ok (decoded judge entries)
  else
    .error (.undecodable
      ⟨resource, failures judge entries, rest (decoded judge entries)⟩)

/-- The verdict of a reader on a payload. The reason tells the fault, but not the place in the
payload at which the reader stopped. -/
def Verdict.ofFault : Except Json.Fault α → Verdict α
  | .ok value => .decoded value
  | .error fault => .failed fault.message

/-! ## Deployments -/

/-- The time that a text gives. -/
def timeOf (entry : Entry) (text : String) : Outcome Nat :=
  match Text.readWord (Text.trim text) with
  | .ok time => .ok time
  | .error fault =>
    let reason := s!"{Text.quote text} is not a timestamp: {fault.message}"
    .error (.undecodable
      ⟨"deployments update timestamp", [⟨entry.key, reason⟩], .nothing⟩)

/-- The time of the last deployment. No entry, or one without value, is time 0. -/
def deploymentTime (path : String) : List Entry → Outcome Nat
  | [] => .ok 0
  | [entry] =>
    match entry.text? with
    | none => .ok 0
    | some text => timeOf entry text
  | entries => .error (.protocolViolation path s!"scalar key holds {entries.length} entries")

/-! ## Engines -/

/-- The report that an entry holds. Only direct children of the path that have a value are
reports. -/
def judgeEngine (path : String) (entry : Entry) : Verdict EngineState :=
  if (childKey? path entry.key).isNone then .skipped
  else
    match entry.value with
    | none => .skipped
    | some bytes => .ofFault (EngineState.reader.run bytes)

/-- The reports of engines. -/
def engineStates (path : String) (entries : List Entry) : Outcome (List EngineState) :=
  collect "engines state" (judgeEngine path) .engines entries

/-! ## Chains -/

/-- The chain that an entry is about, with its properties. An entry without a chain's id in its key
is passed over; one without a value does not decode. -/
def judgeChain (marker : String) (entry : Entry) : Verdict (String × ChainProperties) :=
  match chainId? entry.key marker with
  | none => .skipped
  | some id =>
    match entry.value with
    | none => .failed "no value stored"
    | some bytes => .ofFault ((ChainProperties.reader.run bytes).map fun chain => (id, chain))

/-- The properties of chains by their ids; of two entries with one id the later one counts. -/
def chainProperties (marker : String) (entries : List Entry) :
    Outcome (Dict ChainProperties) :=
  (collect "chains runtime configuration" (judgeChain marker)
    (fun chains => .chains (Dict.ofList chains)) entries).map Dict.ofList

/-! ## Variables -/

/-- The variable that an entry holds, with its value. Where a path is given, only its direct
children are variables. -/
def variableOf? (path : Option String) (entry : Entry) : Option (String × String) :=
  if path.all fun path => (childKey? path entry.key).isSome then
    (lastSegment? entry.key).map fun name => (name, entry.text)
  else none

/-- The variables that entries hold. -/
def valuesOf (path : Option String) (entries : List Entry) : Dict String :=
  Dict.ofList (entries.filterMap (variableOf? path))

end EngineCatalog.Catalog
