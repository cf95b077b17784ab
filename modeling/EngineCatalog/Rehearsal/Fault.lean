import EngineCatalog.KeyValue.Basic
import EngineCatalog.Secret.Basic

/-!
# Planned faults

A rehearsal can plan faults for the calls of the two stores. A fault is for calls of one kind, and
may be for one path or secret only. It is used up by the calls that meet it, each call meeting the
first fault that is for it and has uses left.

`Fault.take` looks for the fault of a call and uses it once.
-/

namespace EngineCatalog.Rehearsal

/-- A kind of calls. -/
inductive Target where
  /-- reading keys -/
  | read
  /-- waiting for a change of keys -/
  | await
  /-- setting a key -/
  | put
  /-- deleting keys -/
  | delete
  /-- a transaction -/
  | transact
  /-- reading several keys -/
  | readMany
  /-- listing secrets -/
  | listSecrets
  /-- reading a secret -/
  | readSecret
  /-- creating a secret -/
  | createSecret
  /-- adding to a secret -/
  | addToSecret
  /-- adding to an empty secret -/
  | fillSecret
  /-- overwriting what a secret holds -/
  | updateSecret
  /-- removing from a secret -/
  | removeFromSecret
  /-- starting a removal from a secret -/
  | startRemoval
  deriving DecidableEq

/-- The kind of a call of the key-value store, and the path it is about. -/
def Target.ofStore : KeyValue.Call → Target × String
  | .read path _ => (.read, path)
  | .await path _ _ _ => (.await, path)
  | .put path _ => (.put, path)
  | .delete path _ => (.delete, path)
  | .transact _ => (.transact, "")
  | .readMany _ => (.readMany, "")

/-- The kind of a call of the secrets' backend, and the secret it is about. -/
def Target.ofSecrets : Secret.Call → Target × String
  | .list _ => (.listSecrets, "")
  | .read name => (.readSecret, name)
  | .create name _ _ => (.createSecret, name)
  | .add name _ initial => (if initial then .fillSecret else .addToSecret, name)
  | .update name _ => (.updateSecret, name)
  | .remove name _ => (.removeFromSecret, name)

/-- A planned fault. -/
structure Fault where
  /-- the calls it is for -/
  target : Target
  /-- the one path or secret it is for, if it is for one only -/
  name : Option String
  /-- how many calls can still meet it -/
  uses : Nat
  /-- by how many milliseconds a call is delayed -/
  delay : Nat
  /-- the call is never answered -/
  hang : Bool
  /-- the call fails with this error -/
  error : Option Error
  /-- the call is answered with this listing -/
  listing : Option KeyValue.Listing
  /-- a removal is rejected with this status and message -/
  rejection : Option (Nat × String)
  /-- what comes of a removal is never said -/
  drop : Bool

namespace Fault

/-- The fault is for a call and has uses left. -/
def meets (target : Target) (name : String) (fault : Fault) : Bool :=
  0 < fault.uses && fault.target = target && fault.name.all (· = name)

/-- The first fault for a call, and the faults with it used once. -/
def take (target : Target) (name : String) : List Fault → Option Fault × List Fault
  | [] => (none, [])
  | fault :: more =>
    if fault.meets target name then
      (some fault, { fault with uses := fault.uses - 1 } :: more)
    else
      let (found, rest) := take target name more
      (found, fault :: rest)

end Fault

end EngineCatalog.Rehearsal
