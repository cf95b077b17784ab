import EngineCatalog.Layout.Key
import EngineCatalog.Settings.Basic

/-!
# Which settings are allowed

`Settings.check` names the first setting that is not allowed, going through the settings in their
order; each part has its own check. In the layout of keys every part of a path starts with a slash
and ends with none, and the part before the chains is a single segment, since a chain is found by
the place of that segment in its key.
-/

namespace EngineCatalog

/-- A setting that is not allowed. -/
abbrev Check : Type := Except String Unit

/-- Refuses with a message under a condition. -/
def refuseIf (condition : Bool) (message : String) : Check :=
  if condition then .error message else .ok ()

/-- The longest time for which the store lets a query wait, in seconds. -/
def longestWait : Nat := 600

/-- The settings of the key-value store are allowed. -/
def StoreSettings.check (settings : StoreSettings) : Check := do
  let { address, watchSeconds, .. } := settings
  refuseIf (!startsWith "http://" address && !startsWith "https://" address)
    s!"kv address {address} must start with http:// or https://"
  refuseIf (watchSeconds = 0) "watch wait must be > 0"
  refuseIf (longestWait < watchSeconds)
    s!"watch wait {watchSeconds}s exceeds the {longestWait}s maximum"
  refuseIf (settings.requestMillis = 0) "request timeout must be > 0"
  refuseIf (settings.batchSize = 0) "txn_max_ops must be > 0"

/-- A part of a path, given with its name, is allowed. -/
def checkPathPart (part : String × String) : Check :=
  refuseIf (!isAbsolute part.2)
    s!"keys.{part.1} = {Text.quote part.2} must start with '/' and not end with '/'"

/-- The layout of keys is allowed. -/
def KeySettings.check (settings : KeySettings) : Check := do
  settings.parts.forM checkPathPart
  refuseIf ((settings.runtime.toList.drop 1).contains '/')
    s!"keys.runtime_configurations = {Text.quote settings.runtime} must be a single path segment"

/-- The settings of the secrets are allowed. -/
def SecretSettings.check (settings : SecretSettings) : Check := do
  refuseIf (Text.isBlank settings.defaultName) "secrets.default_secret_name must not be empty"
  refuseIf (Text.isBlank settings.label) "secrets.label must not be empty"

/-- A policy is allowed; `name` is what it is called in a message. -/
def BackoffPolicy.check (name : String) (policy : BackoffPolicy) : Check := do
  let { baseMillis, maxMillis, .. } := policy
  refuseIf (policy.attempts = 0) s!"{name} max_retries must be > 0"
  refuseIf (policy.timeoutMillis = 0) s!"{name} timeout_ms must be > 0"
  refuseIf (maxMillis < baseMillis)
    s!"{name} base_delay_ms {baseMillis} exceeds max_delay_ms {maxMillis}"

/-- The settings of retrying are allowed. -/
def RetrySettings.check (settings : RetrySettings) : Check :=
  settings.restore.check "restore_variables"

namespace Settings

/-- The checks of the parts, in order. -/
def checks (settings : Settings) : List Check :=
  [settings.store.check, settings.keys.check, settings.secrets.check, settings.retry.check]

/-- All settings are allowed. -/
def check (settings : Settings) : Check :=
  settings.checks.forM id

end Settings

end EngineCatalog
