import EngineCatalog.Audit
import EngineCatalog.KeyValue.Basic
import EngineCatalog.Secret.Basic

/-!
# What operations on variables ask for

Operations on variables touch both stores, take turns by a lock, leave audit records, and wait.
`Effect` lists what they can ask for, `Work` is a program that asks for it.

* `Work.ofStore` — a program that calls only the key-value store, as one of these.
* `Work.locked` — an operation that holds the lock from its beginning to its end.
* `Work.within` — a program that is given up when a moment is reached. What it asks for is then not
  waited for any longer, and a lock that it holds is released.

Moments are counted in milliseconds. Removals that were started go on by themselves; they are told
apart by their tickets.
-/

namespace EngineCatalog

/-- What operations on variables ask for. -/
inductive Effect where
  /-- a call of the key-value store -/
  | store (call : KeyValue.Call)
  /-- a call of the secrets' backend -/
  | secrets (call : Secret.Call)
  /-- starts a removal from a secret -/
  | startRemoval (name : String) (keys : Names)
  /-- waits for what comes of removals, until all are answered or a moment is reached, if one is
  given -/
  | awaitRemovals (tickets : List Nat) (moment : Option Nat)
  /-- takes the lock; those who wait for it get it in the order in which they asked -/
  | lock
  /-- releases the lock -/
  | unlock
  /-- leaves an audit record -/
  | record (record : Audit.Record)
  /-- the moment -/
  | now
  /-- waits for a number of milliseconds -/
  | sleep (millis : Nat)
  /-- any number up to the one given -/
  | choose (bound : Nat)
  /-- the same, but waiting no longer than up to a moment -/
  | until (moment : Nat) (effect : Effect)

namespace Effect

/-- The answers to what is asked for. -/
@[reducible] def Answer : Effect → Type
  | .store call => call.Answer
  | .secrets call => call.Answer
  | .startRemoval _ _ => Outcome Nat
  | .awaitRemovals _ _ => List (Option Secret.Removal)
  | .lock => Unit
  | .unlock => Unit
  | .record _ => Unit
  | .now => Nat
  | .sleep _ => Unit
  | .choose _ => Nat
  | .until _ effect => Option effect.Answer

/-- Does the one who asks hold the lock afterwards, if the one who asks held it before or not? -/
def holdsAfter (held : Bool) : Effect → Bool
  | .lock => true
  | .unlock => false
  | .until _ effect => effect.holdsAfter held
  | _ => held

end Effect

/-- Programs that ask for effects. -/
abbrev effects : Signature := ⟨Effect, Effect.Answer⟩

/-- An operation that asks for effects. -/
abbrev Work (α : Type) : Type := Operation effects α

namespace Work

variable {α : Type}

/-- An operation that calls only the key-value store. -/
def ofStore (operation : Operation KeyValue.keyValue α) : Work α :=
  ExceptT.mk (Program.lift (σ := KeyValue.keyValue) (τ := effects) Effect.store
    (fun _ answer => answer) operation.run)

/-- A call of the secrets' backend. -/
def secrets {β : Type} (call : Secret.Call) (outcome : call.Answer → Outcome β) : Work β :=
  .call (σ := effects) (Effect.secrets call) outcome

/-- Leaves an audit record. -/
def record (record : Audit.Record) : Work Unit :=
  .tell (σ := effects) (Effect.record record) id

/-- The moment. -/
def now : Work Nat :=
  .tell (σ := effects) Effect.now id

/-- The operation with the lock held. The lock is released in any case. -/
def locked (operation : Work α) : Work α :=
  ExceptT.mk (Program.ask (σ := effects) Effect.lock fun _ =>
    Program.bind operation.run fun outcome =>
      Program.ask (σ := effects) Effect.unlock fun _ => .done outcome)

/-- The program, given up when a moment is reached; `held` says that it holds the lock. -/
def within (moment : Nat) (held : Bool) : Program effects α → Program effects (Option α)
  | .done result => .done (some result)
  | .overflow => .overflow
  | .ask effect next => .ask (σ := effects) (Effect.until moment effect) fun
    | some answer => within moment (effect.holdsAfter held) (next answer)
    | none =>
      if held then .ask (σ := effects) Effect.unlock fun _ => .done none
      else .done none

end Work

end EngineCatalog
