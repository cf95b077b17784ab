import EngineCatalog.Json.Printer
import EngineCatalog.Json.Record

/-!
# Payloads

What the catalog and the engines write into the store for one another, as JSON.

* `EngineState` — the report of one engine instance: who it is (`EngineInfo`), and all else.
* `LibraryUpdate` — one element of the list of libraries.
* `ChainProperties` — the runtime properties of a deployed chain, an object of any members.

Members that the catalog does not interpret are kept as they are, so that nothing is lost when a
payload is read and written again. The declared fields of a payload are written first, in their
order and also where they are missing, the other members after them in ascending order of their
names. The report of an engine and a library are read from an object only; an engine's info may also
be a list of its fields.
-/

namespace EngineCatalog

open Json (Field Record Reader)
open Text (Bytes)

/-! ## Engines -/

/-- Who an engine is. -/
structure EngineInfo where
  /-- the host it runs on -/
  host : String
  /-- its domain -/
  domain : Option String
  /-- the name of its deployment -/
  deploymentName : Option String
  deriving DecidableEq

namespace EngineInfo

/-- The shape of an engine's info. -/
def record : Record EngineInfo where
  title := "struct EngineInfo"
  blank := ⟨"", none, none⟩
  fields := [
    ⟨"host", true, Reader.text.map fun text info => { info with host := text }⟩,
    ⟨"domain", false, (Reader.optional Reader.text).map fun text info =>
      { info with domain := text }⟩,
    ⟨"engineDeploymentName", false, (Reader.optional Reader.text).map fun text info =>
      { info with deploymentName := text }⟩]

/-- Reads an engine's info. -/
def reader : Reader EngineInfo := record.reader

/-- An engine's info as JSON. -/
def toJson (info : EngineInfo) : Json :=
  .object [
    ("host", .text info.host),
    ("domain", Json.optionalText info.domain),
    ("engineDeploymentName", Json.optionalText info.deploymentName)]

end EngineInfo

/-- The report of one engine instance. -/
structure EngineState where
  /-- who reports -/
  engine : EngineInfo
  /-- all other members -/
  details : Dict Json
  deriving BEq

namespace EngineState

/-- The shape of an engine's report. -/
def record : Record EngineState where
  title := "struct EngineState"
  blank := ⟨EngineInfo.record.blank, Dict.empty⟩
  fields := [⟨"engine", true, EngineInfo.reader.map fun info state =>
    { state with engine := info }⟩]
  keep := some fun name value state => { state with details := state.details.insert name value }

/-- Reads an engine's report. -/
def reader : Reader EngineState := record.reader

/-- An engine's report as JSON. -/
def toJson (state : EngineState) : Json :=
  .object (("engine", state.engine.toJson) :: state.details.entries)

end EngineState

/-! ## Libraries -/

/-- One element of the list of libraries. -/
structure LibraryUpdate where
  /-- which library it is -/
  specificationId : String
  /-- its version -/
  version : Option String
  /-- all other members -/
  details : Dict Json
  deriving BEq

namespace LibraryUpdate

/-- The shape of a library. -/
def record : Record LibraryUpdate where
  title := "struct LibraryUpdate"
  blank := ⟨"", none, Dict.empty⟩
  fields := [
    ⟨"specificationId", true, Reader.text.map fun text library =>
      { library with specificationId := text }⟩,
    ⟨"version", false, (Reader.optional Reader.text).map fun text library =>
      { library with version := text }⟩]
  keep := some fun name value library =>
    { library with details := library.details.insert name value }

/-- Reads a library. -/
def reader : Reader LibraryUpdate := record.reader

/-- A library as JSON. -/
def toJson (library : LibraryUpdate) : Json :=
  .object (("specificationId", .text library.specificationId)
    :: ("version", Json.optionalText library.version) :: library.details.entries)

/-- The library that a value already read is. -/
def ofJson? (value : Json) : Option LibraryUpdate := do
  let members ← value.dict?
  let specificationId ← (← members.find? "specificationId").text?
  let version ← ((members.find? "version").getD .null).optionalText?
  return ⟨specificationId, version, members.eraseAll ["specificationId", "version"]⟩

/-- The written form of a list of libraries. -/
def writeAll (libraries : List LibraryUpdate) : Bytes :=
  Json.write (.list (libraries.map toJson))

end LibraryUpdate

/-! ## Chains -/

/-- The runtime properties of a deployed chain. -/
structure ChainProperties where
  /-- the properties by name -/
  properties : Dict Json
  deriving BEq

namespace ChainProperties

/-- Reads a chain's properties. -/
def reader : Reader ChainProperties := Reader.members.map .mk

/-- The property with a name. -/
def find? (chain : ChainProperties) (name : String) : Option Json :=
  chain.properties.find? name

/-- A chain's properties as JSON. -/
def toJson (chain : ChainProperties) : Json := Json.ofDict chain.properties

/-- The chain's properties that a value already read is. -/
def ofJson? (value : Json) : Option ChainProperties :=
  value.dict?.map .mk

/-- The written form of a chain's properties. -/
def write (chain : ChainProperties) : Bytes :=
  Json.write chain.toJson

end ChainProperties

end EngineCatalog
