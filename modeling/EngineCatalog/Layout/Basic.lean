import EngineCatalog.Layout.Key
import EngineCatalog.Settings.Basic

/-!
# The layout of the tree of keys

`Layout` says at which key or below which path each thing lies. All paths are the settings' parts
put one behind the other, starting with the base and the root of the tree.
-/

namespace EngineCatalog

/-- Where each thing lies in the store. -/
structure Layout where
  /-- the root of the tree -/
  root : String
  /-- the segment two places before the id of a chain in the keys of chains -/
  marker : String
  /-- the key of the time of the last deployment -/
  deployments : String
  /-- the path of the reports of engines -/
  engines : String
  /-- the key of the list of libraries -/
  libraries : String
  /-- the path of the properties of chains -/
  chains : String
  /-- the path of common variables as they lay before, by tenant -/
  oldVariables : String
  /-- the path of common variables -/
  commonVariables : String
  deriving DecidableEq

namespace Layout

/-- The layout for some settings. -/
def of (keys : KeySettings) : Layout :=
  let root := keys.base ++ keys.root
  { root := root
    marker := trimSlashes keys.runtime
    deployments := root ++ keys.deployments
    engines := root ++ keys.engines
    libraries := root ++ keys.libraries
    chains := root ++ keys.runtime ++ keys.chains
    oldVariables := root ++ keys.oldVariables
    commonVariables := root ++ keys.commonVariables }

/-- What all keys of chains start with. The slash at its end keeps out neighbours whose names only
begin alike. -/
def chainsListing (layout : Layout) : String := layout.chains ++ "/"

/-- The key of the properties of a chain. -/
def chainKey (layout : Layout) (id : String) : String := layout.chains ++ "/" ++ id

/-- The path of the properties of chains as they lay before. -/
def oldChains (layout : Layout) : String := layout.root ++ "/chains-runtime-configurations"

/-- The key of a common variable. -/
def variableKey (layout : Layout) (name : String) : String := layout.commonVariables ++ "/" ++ name

/-- What all keys of common variables started with before. -/
def oldVariablesListing (layout : Layout) : String := layout.oldVariables ++ "/"

/-- The path of a tenant's common variables as they lay before. -/
def tenantVariables (layout : Layout) (tenant : String) : String :=
  layout.oldVariables ++ "/" ++ tenant

end Layout

end EngineCatalog
