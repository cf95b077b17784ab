import EngineCatalog.Audit
import EngineCatalog.Catalog.Basic
import EngineCatalog.Catalog.Decode
import EngineCatalog.Decimal.Nearest
import EngineCatalog.Decimal.Shortest
import EngineCatalog.Dict
import EngineCatalog.Effect
import EngineCatalog.Error
import EngineCatalog.Json.Basic
import EngineCatalog.Json.Fault
import EngineCatalog.Json.Lexical
import EngineCatalog.Json.Printer
import EngineCatalog.Json.Record
import EngineCatalog.Json.Value
import EngineCatalog.KeyValue.Basic
import EngineCatalog.KeyValue.Remote
import EngineCatalog.KeyValue.Store
import EngineCatalog.KeyValue.Waiter
import EngineCatalog.KeyValue.Wire
import EngineCatalog.Layout.Basic
import EngineCatalog.Layout.Key
import EngineCatalog.Payload
import EngineCatalog.Program
import EngineCatalog.Rehearsal.Fault
import EngineCatalog.Rehearsal.Schedule
import EngineCatalog.Rehearsal.World
import EngineCatalog.Retry
import EngineCatalog.Secret.Basic
import EngineCatalog.Secret.Keeper
import EngineCatalog.Secret.Vault
import EngineCatalog.Settings.Basic
import EngineCatalog.Settings.Check
import EngineCatalog.Settings.Raw
import EngineCatalog.Settings.Section
import EngineCatalog.Settings.Source
import EngineCatalog.Settings.Toml.Document
import EngineCatalog.Settings.Toml.Lexical
import EngineCatalog.Settings.Toml.Moment
import EngineCatalog.Settings.Toml.Number
import EngineCatalog.Settings.Toml.Tree
import EngineCatalog.Span
import EngineCatalog.Text.Base64
import EngineCatalog.Text.Blank
import EngineCatalog.Text.Numeral
import EngineCatalog.Text.Place
import EngineCatalog.Text.Quoted
import EngineCatalog.Text.Unprintable
import EngineCatalog.Text.Utf8
import EngineCatalog.Variable.Coordinator
import EngineCatalog.Variable.Name
import EngineCatalog.Watch
import EngineCatalog.Proofs.Dict.Lookup
import EngineCatalog.Proofs.Dict.Prefix
import EngineCatalog.Proofs.Store.Write
import EngineCatalog.Proofs.Store.QueryIndex
import EngineCatalog.Proofs.Layout.Key
import EngineCatalog.Proofs.Layout.Chain
import EngineCatalog.Proofs.Secret.Holds
import EngineCatalog.Proofs.Store.Keys
import EngineCatalog.Proofs.Watch.Loop
import EngineCatalog.Proofs.Concurrency.System
import EngineCatalog.Proofs.Program.Follows
import EngineCatalog.Proofs.Program.Discipline
import EngineCatalog.Proofs.Retry.Attempts
import EngineCatalog.Proofs.Watch.Acknowledgement
import EngineCatalog.Proofs.Concurrency.Trace
import EngineCatalog.Proofs.Variable.Permit
import EngineCatalog.Proofs.Variable.Keeps
import EngineCatalog.Proofs.Variable.Task
import EngineCatalog.Proofs.Variable.Turn
import EngineCatalog.Proofs.Variable.Removals
import EngineCatalog.Proofs.Variable.Order
import EngineCatalog.Proofs.Variable.Stays
import EngineCatalog.Proofs.Variable.Exclusion
import EngineCatalog.Proofs.Variable.Guarded
import EngineCatalog.Proofs.Variable.Namespace
import EngineCatalog.Proofs.Variable.Writes
import EngineCatalog.Proofs.Text.Blank
import EngineCatalog.Proofs.Text.Numeral
import EngineCatalog.Proofs.Text.Place
import EngineCatalog.Proofs.Text.Utf8
import EngineCatalog.Proofs.Text.Base64
import EngineCatalog.Proofs.Json.Lexical
import EngineCatalog.Proofs.Json.Value
import EngineCatalog.Proofs.Json.Record
import EngineCatalog.Proofs.Json.Payload
import EngineCatalog.Proofs.Json.Document
import EngineCatalog.Proofs.Json.Skip
import EngineCatalog.Proofs.Json.Covers
import EngineCatalog.Proofs.Json.Agree
import EngineCatalog.Proofs.Json.Retained
import EngineCatalog.Proofs.Store.Contents
import EngineCatalog.Proofs.Catalog.Publication
import EngineCatalog.Proofs.Catalog.Chains
import EngineCatalog.Proofs.Catalog.OwnKeys
import EngineCatalog.Proofs.Catalog.OldTrees
import EngineCatalog.Proofs.Catalog.Variables
import EngineCatalog.Proofs.Catalog.Existence
import EngineCatalog.Proofs.Catalog.Batches
import EngineCatalog.Proofs.Catalog.DeploymentTime
import EngineCatalog.Proofs.Concurrency.Alone
import EngineCatalog.Proofs.Variable.Performance
import EngineCatalog.Proofs.Variable.AllOrNothing
import EngineCatalog.Proofs.Variable.NoTrace
import EngineCatalog.Proofs.Variable.Batch
import EngineCatalog.Proofs.Variable.AuditTrail
import EngineCatalog.Proofs.Variable.UnderLock
import EngineCatalog.Proofs.Variable.Serializable
import EngineCatalog.Proofs.Remote.Wait
import EngineCatalog.Proofs.Remote.Wire
import EngineCatalog.Proofs.Remote.Transaction
import EngineCatalog.Proofs.Remote.Answered
import EngineCatalog.Proofs.Remote.Address
import EngineCatalog.Proofs.Remote.Listing
import EngineCatalog.Proofs.Remote.ManyKeys
import EngineCatalog.Proofs.Store.Consistency
import EngineCatalog.Proofs.Store.Transaction
import EngineCatalog.Proofs.Store.Scene
import EngineCatalog.Proofs.Store.Waiting
import EngineCatalog.Proofs.Variable.Trial
import EngineCatalog.Proofs.Variable.OneOrSeveral
import EngineCatalog.Proofs.Variable.DeletionRecords
import EngineCatalog.Proofs.Variable.Deadline
import EngineCatalog.Proofs.Variable.Reach
import EngineCatalog.Proofs.Variable.Conceal
import EngineCatalog.Proofs.Variable.OutOfReach
import EngineCatalog.Proofs.Concurrency.Drill
import EngineCatalog.Proofs.Retry.Drilled
import EngineCatalog.Proofs.Variable.Restore
import EngineCatalog.Proofs.Text.Order
import EngineCatalog.Proofs.Layout.Shape
import EngineCatalog.Proofs.Store.Range
import EngineCatalog.Proofs.Store.Undisturbed
import EngineCatalog.Proofs.Watch.FirstPayload
