import EngineCatalog.KeyValue.Store

/-!
# One who waits for a change

A wait on a store in memory goes step by step, with all that others do in between. Every write that
moves the store's index is announced, some time after it was made, and one who waits has heard of
all announcements up to the moment at which he last began to listen.

* `Waiter` — who waits: for what, and up to which moment.
* `Waiter.Stage` — how far he has come.
* `Waiter.step` — what he does next. He looks, and if nothing has changed he listens. An
  announcement makes him look again, whatever it is about; at the deadline he takes what is there.
* `Waiter.rest` — where he has to wait for others, or is done.

Moments and spans are in nanoseconds.
-/

namespace EngineCatalog.KeyValue

/-- One who waits until the index at a key or below a path differs from one he knows. -/
structure Waiter where
  /-- the key or path -/
  path : String
  /-- all keys that start with the path -/
  all : Bool
  /-- the index he knows -/
  since : Nat
  /-- the moment up to which he waits -/
  deadline : Nat
  deriving DecidableEq

namespace Waiter

/-- How far one who waits has come. -/
inductive Stage where
  /-- he has just been called -/
  | called
  /-- he is to look, and has heard so many announcements -/
  | looking (heard : Nat)
  /-- he found nothing new and listens, having heard so many announcements -/
  | listening (heard : Nat)
  /-- the time is over, and he is to look once more -/
  | leaving
  /-- he is done, with what he found -/
  | returned (listing : Listing)
  deriving DecidableEq

/-- One who begins to wait at a moment. There is none if his deadline were past the last moment
that the clock can count. -/
def arrive? (last moment : Nat) (path : String) (all : Bool) (since : Nat) (wait : Span) :
    Option Waiter :=
  if last < moment + wait.nanos then none else some ⟨path, all, since, moment + wait.nanos⟩

/-- The next step at a moment, with so many announcements made; none if he has to wait for others,
or is done. Being told comes before being late. -/
def step (waiter : Waiter) (store : Store) (announced moment : Nat) : Stage → Option Stage
  | .called => some (.looking announced)
  | .looking heard =>
    if store.isOver waiter.path waiter.all waiter.since then
      some (.returned (store.query waiter.path waiter.all))
    else some (.listening heard)
  | .listening heard =>
    if announced ≠ heard then some (.looking announced)
    else if waiter.deadline ≤ moment then some .leaving
    else none
  | .leaving => some (.returned (store.query waiter.path waiter.all))
  | .returned _ => none

/-- As many steps as are left at most while nothing is announced. -/
def Stage.rank (announced : Nat) : Stage → Nat
  | .called => 4
  | .looking heard => if announced ≠ heard then 5 else 3
  | .listening heard => if announced ≠ heard then 4 else 2
  | .leaving => 1
  | .returned _ => 0

/-- So many steps, or fewer where he has to wait or is done before. -/
def proceed (waiter : Waiter) (store : Store) (announced moment : Nat) : Nat → Stage → Stage
  | 0, stage => stage
  | steps + 1, stage =>
    match waiter.step store announced moment stage with
    | some next => waiter.proceed store announced moment steps next
    | none => stage

/-- All steps that he can take while others do nothing. -/
def rest (waiter : Waiter) (store : Store) (announced moment : Nat) (stage : Stage) : Stage :=
  waiter.proceed store announced moment (stage.rank announced) stage

end Waiter

end EngineCatalog.KeyValue
