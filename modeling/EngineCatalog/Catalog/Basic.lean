import EngineCatalog.Catalog.Decode
import EngineCatalog.Layout.Basic
import EngineCatalog.Watch

/-!
# The catalog

`Catalog` is the catalog's side of the exchange with the engines over the key-value store: it
publishes the time of the last deployment, the properties of chains, the libraries and the common
variables, and watches what engines report.

Every operation is a program that calls the store. A watch takes the cursor of its resource and
gives it back, moved on if the change was taken; a change that does not decode is taken back, so
that the next call meets it again (`Watch.Cursor.receive`).
-/

namespace EngineCatalog

open KeyValue (Entry Listing Change keyValue)
open Watch (Cursor Update)

variable {α : Type}

/-! ## Watching -/

/-- What a watch makes of the outcome of its call, and where its cursor is then. -/
def Watch.Cursor.receive (cursor : Cursor) (decode : List Entry → Outcome α) :
    Outcome Listing → Outcome (Update α) × Cursor
  | .error error => (.error error, cursor)
  | .ok listing =>
    if cursor.changes listing.index then
      match decode listing.entries with
      | .ok payload => (.ok (.changed payload), cursor.observe listing.index)
      | .error error =>
        let seen := cursor.observe listing.index
        (.error error, if error.isUndecodable then seen.rollback else seen)
    else (.ok .unchanged, cursor)

/-- A program that watches: its outcome and its cursor. -/
abbrev Watching (α : Type) : Type := Program keyValue (Outcome (Update α) × Cursor)

/-- The catalog. -/
structure Catalog where
  /-- where each thing lies -/
  layout : Layout
  /-- how long a watch waits -/
  watchWait : Span

namespace Catalog

/-- The catalog for some settings. -/
def of (settings : Settings) : Catalog :=
  ⟨Layout.of settings.keys, settings.store.watchWait⟩

/-- Watches a key, or all keys that start with a path. -/
def watch (catalog : Catalog) (path : String) (all : Bool) (decode : List Entry → Outcome α)
    (cursor : Cursor) : Watching α :=
  .ask (σ := keyValue) (.await path all cursor.last catalog.watchWait) fun outcome =>
    .done (cursor.receive decode outcome)

/-! ## Deployments -/

/-- Sets the time of the last deployment. To be called when the deployment is complete, so that no
engine sees the time before it sees the deployment. -/
def stampDeployment (catalog : Catalog) (time : Nat) : Operation keyValue Nat := do
  KeyValue.put catalog.layout.deployments (Text.encode (toString time))
  return time

/-- Watches the time of the last deployment; 0 means that there was none. -/
def watchDeployments (catalog : Catalog) : Cursor → Watching Nat :=
  catalog.watch catalog.layout.deployments false (deploymentTime catalog.layout.deployments)

/-! ## Engines -/

/-- Watches the reports of all engines. -/
def watchEngines (catalog : Catalog) : Cursor → Watching (List EngineState) :=
  catalog.watch catalog.layout.engines true (engineStates catalog.layout.engines)

/-- The reports of all engines; where they cannot be had there are none. -/
def currentEngines (catalog : Catalog) : Operation keyValue (List EngineState) := do
  let outcome ← (KeyValue.await catalog.layout.engines true 0 ⟨0⟩).attempt
  match outcome with
  | .error _ => return []
  | .ok listing => return ((engineStates catalog.layout.engines listing.entries).toOption).getD []

/-! ## Libraries -/

/-- Publishes the libraries. -/
def updateLibraries (catalog : Catalog) (libraries : List LibraryUpdate) :
    Operation keyValue Unit :=
  KeyValue.put catalog.layout.libraries (LibraryUpdate.writeAll libraries)

/-! ## Reads that may find nothing -/

/-- Reads, and takes an empty result where nothing is found. -/
def readOr (nothing : α) (path : String) (all : Bool) (use : Listing → Outcome α) :
    Operation keyValue α := do
  let outcome ← (KeyValue.read path all).attempt
  match outcome with
  | .ok listing => .ofOutcome (use listing)
  | .error error => if error.isNotFound then return nothing else .fail error

/-- There is a key that starts with the path. -/
def hasKeys (path : String) : Operation keyValue Bool :=
  readOr false path true fun _ => .ok true

/-! ## Chains -/

/-- Publishes the properties of a chain. -/
def updateChain (catalog : Catalog) (id : String) (chain : ChainProperties) :
    Operation keyValue Unit :=
  KeyValue.put (catalog.layout.chainKey id) chain.write

/-- Publishes the properties of several chains at once. -/
def updateChains (catalog : Catalog) (chains : Dict ChainProperties) : Operation keyValue Unit :=
  KeyValue.transact (chains.entries.map fun entry =>
    .set (catalog.layout.chainKey entry.1) entry.2.write)

/-- Withdraws the properties of a chain. -/
def deleteChain (catalog : Catalog) (id : String) : Operation keyValue Unit :=
  KeyValue.delete (catalog.layout.chainKey id) false

/-- The properties of all chains. -/
def chains (catalog : Catalog) : Operation keyValue (Dict ChainProperties) :=
  readOr Dict.empty catalog.layout.chainsListing true fun listing =>
    chainProperties catalog.layout.marker listing.entries

/-- Watches the properties of all chains. -/
def watchChains (catalog : Catalog) : Cursor → Watching (Dict ChainProperties) :=
  catalog.watch catalog.layout.chainsListing true (chainProperties catalog.layout.marker)

/-- There are properties of chains. -/
def chainsExist (catalog : Catalog) : Operation keyValue Bool :=
  hasKeys catalog.layout.chainsListing

/-- Deletes the properties of chains as they lay before. -/
def deleteOldChains (catalog : Catalog) : Operation keyValue Unit :=
  KeyValue.delete catalog.layout.oldChains true

/-! ## Common variables -/

/-- The variables that are direct children of a path. -/
def variablesUnder (path : String) : Operation keyValue (Dict String) :=
  readOr Dict.empty path true fun listing => .ok (valuesOf (some path) listing.entries)

/-- The value of a common variable, if it exists. -/
def findVariable (catalog : Catalog) (name : String) : Operation keyValue (Option String) :=
  readOr none (catalog.layout.variableKey name) false fun listing =>
    .ok (listing.entries.head?.map Entry.text)

/-- The values of the named variables that exist. -/
def variablesNamed (catalog : Catalog) (names : List String) : Operation keyValue (Dict String) :=
  if names.isEmpty then return Dict.empty
  else do
    let entries ← KeyValue.readMany (names.map catalog.layout.variableKey)
    return valuesOf none entries

/-- All common variables. -/
def allVariables (catalog : Catalog) : Operation keyValue (Dict String) :=
  variablesUnder catalog.layout.commonVariables

/-- A tenant's common variables as they lay before. -/
def tenantVariables (catalog : Catalog) (tenant : String) : Operation keyValue (Dict String) :=
  variablesUnder (catalog.layout.tenantVariables tenant)

/-- There are common variables. -/
def variablesExist (catalog : Catalog) : Operation keyValue Bool :=
  hasKeys catalog.layout.commonVariables

/-- Deletes all common variables as they lay before. -/
def deleteOldVariables (catalog : Catalog) : Operation keyValue Unit :=
  KeyValue.delete catalog.layout.oldVariablesListing true

/-- Sets a common variable. -/
def setVariable (catalog : Catalog) (name value : String) : Operation keyValue Unit :=
  KeyValue.put (catalog.layout.variableKey name) (Text.encode value)

/-- Sets common variables at once. -/
def setVariables (catalog : Catalog) (values : Dict String) : Operation keyValue Unit :=
  KeyValue.transact (values.entries.map fun entry =>
    .set (catalog.layout.variableKey entry.1) (Text.encode entry.2))

/-- Deletes a common variable. -/
def deleteVariable (catalog : Catalog) (name : String) : Operation keyValue Unit :=
  KeyValue.delete (catalog.layout.variableKey name) false

/-- Deletes common variables at once. -/
def deleteVariables (catalog : Catalog) (names : List String) : Operation keyValue Unit :=
  KeyValue.transact (names.map fun name => .delete (catalog.layout.variableKey name))

end Catalog

end EngineCatalog
