import EngineCatalog.Settings.Section
import EngineCatalog.Span
import EngineCatalog.Text.Blank

/-!
# The settings

* `StoreSettings` — how the key-value store is reached and watched.
* `KeySettings` — the layout of the tree of keys: parts of paths, each starting with a slash.
* `SecretSettings` — how the secrets are called, and how long a batch of removals may take.
* `RetrySettings` — how maintenance is retried, by operation (`BackoffPolicy`).
* `Settings` — all of them.

Each record comes with the section that describes its settings, and the values that count where
nothing is given. `Settings.describe` shows settings without the token.
-/

namespace EngineCatalog

open Settings (Section Slot)

/-! ## The key-value store -/

/-- How the key-value store is reached and watched. -/
structure StoreSettings where
  /-- the base address of its interface -/
  address : String
  /-- the token that is sent with every request -/
  token : Option String
  /-- how long a watch waits for a change, in seconds -/
  watchSeconds : Nat
  /-- how long a request may take that does not wait, in milliseconds -/
  requestMillis : Nat
  /-- how many operations a transaction may have -/
  batchSize : Nat
  deriving DecidableEq

namespace StoreSettings

/-- The section of these settings. -/
def shape : Section StoreSettings where
  title := "struct KvConfig"
  blank := ⟨"http://127.0.0.1:8500", none, 20, 5000, 64⟩
  slots := [
    Slot.text "address" (·.address) fun text s => { s with address := text },
    Slot.optionalText "token" (·.token) fun text s => { s with token := text },
    Slot.word "watch_wait_in_secs" (·.watchSeconds) fun n s => { s with watchSeconds := n },
    Slot.word "request_timeout_in_ms" (·.requestMillis) fun n s => { s with requestMillis := n },
    Slot.word "txn_max_ops" (·.batchSize) fun n s => { s with batchSize := n }]

/-- How long a watch waits for a change. -/
def watchWait (settings : StoreSettings) : Span := .ofSeconds settings.watchSeconds

/-- How long a request may take that does not wait. -/
def requestTimeout (settings : StoreSettings) : Span := .ofMillis settings.requestMillis

end StoreSettings

/-! ## Keys -/

/-- The layout of the tree of keys. -/
structure KeySettings where
  /-- where all keys lie -/
  base : String
  /-- the root of this tree, below the base -/
  root : String
  /-- the key of the time of the last deployment -/
  deployments : String
  /-- where the engines report -/
  engines : String
  /-- the key of the list of libraries -/
  libraries : String
  /-- where runtime properties lie -/
  runtime : String
  /-- where the properties of chains lie, below those -/
  chains : String
  /-- where common variables lay before, by tenant -/
  oldVariables : String
  /-- where common variables lie -/
  commonVariables : String
  deriving DecidableEq

namespace KeySettings

/-- The section of these settings. -/
def shape : Section KeySettings where
  title := "struct KvKeysConfig"
  blank := ⟨"/config/local", "/qip-engine-configurations", "/deployments-update",
    "/engines-state", "/libraries-update", "/runtime-configurations", "/chains",
    "/common-variables", "/common-variables-v2"⟩
  slots := [
    Slot.text "prefix" (·.base) fun text s => { s with base := text },
    Slot.text "engine_config_root" (·.root) fun text s => { s with root := text },
    Slot.text "deployments_update" (·.deployments) fun text s => { s with deployments := text },
    Slot.text "engines_state" (·.engines) fun text s => { s with engines := text },
    Slot.text "libraries_update" (·.libraries) fun text s => { s with libraries := text },
    Slot.text "runtime_configurations" (·.runtime) fun text s => { s with runtime := text },
    Slot.text "chains" (·.chains) fun text s => { s with chains := text },
    Slot.text "common_variables_v1" (·.oldVariables) fun text s => { s with oldVariables := text },
    Slot.text "common_variables_v2" (·.commonVariables)
      fun text s => { s with commonVariables := text }]

/-- The parts of paths with their names, in order. -/
def parts (settings : KeySettings) : List (String × String) := [
  ("prefix", settings.base),
  ("engine_config_root", settings.root),
  ("deployments_update", settings.deployments),
  ("engines_state", settings.engines),
  ("libraries_update", settings.libraries),
  ("runtime_configurations", settings.runtime),
  ("chains", settings.chains),
  ("common_variables_v1", settings.oldVariables),
  ("common_variables_v2", settings.commonVariables)]

end KeySettings

/-! ## Secrets -/

/-- How the secrets are called, and how long a batch of removals may take. -/
structure SecretSettings where
  /-- the secret that holds secured variables where no other is named -/
  defaultName : String
  /-- the key of the label of the secrets that belong to the catalog -/
  label : String
  /-- how long all removals of one batch may take, in milliseconds; 0 is for as long as need be -/
  batchMillis : Nat
  deriving DecidableEq

namespace SecretSettings

/-- The section of these settings. -/
def shape : Section SecretSettings where
  title := "struct SecretsConfig"
  blank := ⟨"secured-variables-v2", "app.kubernetes.io/secured-variables", 30000⟩
  slots := [
    Slot.text "default_secret_name" (·.defaultName) fun text s => { s with defaultName := text },
    Slot.text "label" (·.label) fun text s => { s with label := text },
    Slot.word "batch_delete_timeout_in_ms" (·.batchMillis) fun n s => { s with batchMillis := n }]

/-- How long all removals of one batch may take, if there is a bound. -/
def batchTimeout (settings : SecretSettings) : Option Span :=
  if settings.batchMillis = 0 then none else some (.ofMillis settings.batchMillis)

end SecretSettings

/-! ## Retrying -/

/-- How one operation is retried. -/
structure BackoffPolicy where
  /-- how many attempts there are -/
  attempts : Nat
  /-- how long an attempt may take, in milliseconds -/
  timeoutMillis : Nat
  /-- the delay after the first attempt, in milliseconds -/
  baseMillis : Nat
  /-- the longest delay, in milliseconds -/
  maxMillis : Nat
  deriving DecidableEq

namespace BackoffPolicy

/-- The section of these settings. -/
def shape : Section BackoffPolicy where
  title := "struct BackoffPolicy"
  blank := ⟨3, 100, 50, 1000⟩
  slots := [
    Slot.word "max_retries" (·.attempts) fun n s => { s with attempts := n },
    Slot.word "timeout_ms" (·.timeoutMillis) fun n s => { s with timeoutMillis := n },
    Slot.word "base_delay_ms" (·.baseMillis) fun n s => { s with baseMillis := n },
    Slot.word "max_delay_ms" (·.maxMillis) fun n s => { s with maxMillis := n }]

/-- How long an attempt may take. -/
def timeout (policy : BackoffPolicy) : Span := .ofMillis policy.timeoutMillis

end BackoffPolicy

/-- How maintenance is retried. -/
structure RetrySettings where
  /-- the restoring of default variables -/
  restore : BackoffPolicy
  deriving DecidableEq

/-- The section of these settings. -/
def RetrySettings.shape : Section RetrySettings where
  title := "struct RetryPolicies"
  blank := ⟨⟨5, 10000, 1000, 30000⟩⟩
  slots := [
    Slot.nested "restore_variables" BackoffPolicy.shape (·.restore) fun part s =>
      { s with restore := part }]

/-! ## All settings -/

/-- All settings. -/
structure Settings where
  /-- of the key-value store -/
  store : StoreSettings
  /-- of the layout of keys -/
  keys : KeySettings
  /-- of the secrets -/
  secrets : SecretSettings
  /-- of retrying -/
  retry : RetrySettings
  deriving DecidableEq

namespace Settings

/-- The section of all settings. -/
def shape : Section Settings where
  title := "struct SyncConfig"
  blank := ⟨StoreSettings.shape.blank, KeySettings.shape.blank,
    SecretSettings.shape.blank, RetrySettings.shape.blank⟩
  slots := [
    Slot.nested "kv" StoreSettings.shape (·.store) fun part s => { s with store := part },
    Slot.nested "keys" KeySettings.shape (·.keys) fun part s => { s with keys := part },
    Slot.nested "secrets" SecretSettings.shape (·.secrets) fun part s =>
      { s with secrets := part },
    Slot.nested "retry" RetrySettings.shape (·.retry) fun part s => { s with retry := part }]

instance : Inhabited Settings := ⟨shape.blank⟩

/-- Named values, as they are shown. -/
def describeFields (fields : List (String × String)) : String :=
  ", ".intercalate (fields.map fun field => s!"{field.1}: {field.2}")

/-- A record with its named values, as it is shown. -/
def describeRecord (title : String) (fields : List (String × String)) : String :=
  title ++ " \x7b " ++ describeFields fields ++ " \x7d"

/-- The settings as they are shown, without the token. -/
def describe (settings : Settings) : String :=
  let secrets := settings.secrets
  describeRecord "SyncConfig" [
    ("kv.address", Text.quote settings.store.address),
    ("keys", describeRecord "KvKeysConfig"
      (settings.keys.parts.map fun part => (part.1, Text.quote part.2))),
    ("secrets", describeRecord "SecretsConfig" [
      ("default_secret_name", Text.quote secrets.defaultName),
      ("label", Text.quote secrets.label),
      ("batch_delete_timeout_in_ms", toString secrets.batchMillis)])]

end Settings

end EngineCatalog
