import EngineCatalog.KeyValue.Basic
import EngineCatalog.Layout.Key
import EngineCatalog.Text.Quoted

/-!
# A key-value store in memory

`Store` is the state of a store: the keys with their values, and for deleted keys a tombstone with
the index of the deletion, so that one who waits on a deleted key notices. There is one index for
the whole store, and every write that changes something moves it on by one.

* `Store.query` — what is stored at a key or below a path, and the index of its last change.
* `Store.put`, `Store.putEmpty`, `Store.delete`, `Store.transact` — the writes.
* `Store.reap` — keeps the number of tombstones within a limit. The oldest go first, and no index
  of a query is below that of a tombstone that is gone: the change it stood for still counts, at
  the price of waking some who wait for nothing.
* `Store.isOver` — a wait is over: the index has moved.
* `Store.answer` — the answer to a call at one moment.
-/

namespace EngineCatalog.KeyValue

open Text (Bytes)

/-- What is stored at a key. -/
structure Stored where
  /-- the value, if the key has one -/
  value : Option Bytes
  /-- the index of its last change -/
  modified : Nat
  deriving DecidableEq

/-- The state of a store. -/
structure Store where
  /-- the index of the last write -/
  index : Nat
  /-- the keys -/
  entries : Dict Stored
  /-- deleted keys with the index of their deletion -/
  tombstones : Dict Nat
  /-- how many tombstones are kept -/
  limit : Nat
  /-- the highest index of a tombstone that is gone -/
  reaped : Nat
  deriving DecidableEq

namespace Store

/-- How many tombstones are kept where nothing else is said. -/
def usualLimit : Nat := 1024

/-- The empty store. It keeps one tombstone at least; index 0 is left for those who have seen
nothing. -/
def fresh (limit : Nat) : Store :=
  ⟨1, Dict.empty, Dict.empty, max limit 1, 0⟩

/-! ## Reading -/

/-- What a dictionary holds at a key, or below a path. -/
def select {α : Type} (dict : Dict α) (path : String) (all : Bool) : List (String × α) :=
  if all then dict.underPrefix path
  else ((dict.find? path).map fun value => (path, value)).toList

/-- The indexes of the last changes of what is stored at a key or below a path. -/
def changeIndexes (store : Store) (path : String) (all : Bool) : List Nat :=
  (select store.entries path all).map (fun entry => entry.2.modified)
    ++ (select store.tombstones path all).map Prod.snd

/-- The index of the last change at a key or below a path. Where nothing is known there, it is the
index of the store. -/
def queryIndex (store : Store) (path : String) (all : Bool) : Nat :=
  match (store.changeIndexes path all).max? with
  | none => store.index
  | some index => max index store.reaped

/-- The keys stored at a key or below a path. -/
def queryEntries (store : Store) (path : String) (all : Bool) : List Entry :=
  (select store.entries path all).map fun entry => ⟨entry.1, entry.2.value, entry.2.modified⟩

/-- What is stored at a key or below a path. -/
def query (store : Store) (path : String) (all : Bool) : Listing :=
  ⟨store.queryIndex path all, store.queryEntries path all⟩

/-- Reads a key, or all keys that start with a path. -/
def read (store : Store) (path : String) (all : Bool) : Outcome Listing :=
  if (store.queryEntries path all).isEmpty then .error (.notFound path)
  else .ok (store.query path all)

/-- Reads several keys; keys that are not there are left out. -/
def readMany (store : Store) (paths : List String) : List Entry :=
  paths.flatMap fun path => store.queryEntries path false

/-- A wait for a change is over. -/
def isOver (store : Store) (path : String) (all : Bool) (since : Nat) : Bool :=
  since = 0 || store.queryIndex path all ≠ since

/-! ## Writing -/

/-- The store with a key set at an index. -/
def set (store : Store) (key : String) (value : Option Bytes) (index : Nat) : Store :=
  { store with
    entries := store.entries.insert key ⟨value, index⟩
    tombstones := store.tombstones.erase key }

/-- The tombstones by age, the oldest first, and by key where they are of one age. -/
def byAge (store : Store) : List (String × Nat) :=
  store.tombstones.entries.mergeSort fun a b => a.2 ≤ b.2

/-- The store with its oldest tombstones gone if there are more than it keeps: then three quarters
of the limit are left. -/
def reap (store : Store) : Store :=
  if store.tombstones.size ≤ store.limit then store
  else
    let left := store.limit - store.limit / 4
    let gone := store.byAge.take (store.tombstones.size - left)
    { store with
      tombstones := store.tombstones.eraseAll (gone.map Prod.fst)
      reaped := (gone.map Prod.snd).foldl max store.reaped }

/-- The store with some keys deleted at an index. -/
def bury (store : Store) (keys : List String) (index : Nat) : Store :=
  reap
    { store with
      entries := store.entries.eraseAll keys
      tombstones := store.tombstones.insertAll (keys.map fun key => (key, index)) }

/-- The store with its index moved on. -/
def advance (store : Store) : Store :=
  { store with index := store.index + 1 }

/-- A key that cannot be written. -/
def invalidKey (key : String) : Error :=
  .http key 400 "invalid key"

/-- The store with a key set. -/
def write (store : Store) (key : String) (value : Option Bytes) : Outcome Store :=
  if isAbsolute key then .ok (store.advance.set key value (store.index + 1))
  else .error (invalidKey key)

/-- Sets a key to a value. -/
def put (store : Store) (key : String) (value : Bytes) : Outcome Store :=
  store.write key (some value)

/-- Sets a key without a value, as a folder has it. -/
def putEmpty (store : Store) (key : String) : Outcome Store :=
  store.write key none

/-- Deletes a key, or all keys that start with a path. Deleting nothing is no write. -/
def delete (store : Store) (path : String) (all : Bool) : Store :=
  let keys := (select store.entries path all).map Prod.fst
  if keys.isEmpty then store else store.advance.bury keys (store.index + 1)

/-- Applies a change at an index. -/
def change (index : Nat) (store : Store) : Change → Store
  | .set key value => store.set key (some value) index
  | .delete key =>
    store.bury ((select store.entries key false).map Prod.fst) index

/-- The messages for the changes whose keys cannot be written, the first of them at `place`. -/
def rejections (place : Nat) : List Change → List String
  | [] => []
  | change :: more =>
    if isAbsolute change.key then rejections (place + 1) more
    else s!"op {place}: invalid key {Text.quote change.key}" :: rejections (place + 1) more

/-- Applies changes one after the other at one index, all or none. -/
def transact (store : Store) (changes : List Change) : Outcome Store :=
  if changes.isEmpty then .ok store
  else
    match rejections 0 changes with
    | [] => .ok (changes.foldl (change (store.index + 1)) store.advance)
    | errors => .error (.rejected errors)

/-! ## Calls -/

/-- The outcome of a write with the store after it. -/
def settle (store : Store) : Outcome Store → Outcome Unit × Store
  | .ok after => (.ok (), after)
  | .error error => (.error error, store)

/-- The answer to a call, and the store after it. A wait is answered as if it were over. -/
def answer (store : Store) : (call : Call) → call.Answer × Store
  | .read path all => (store.read path all, store)
  | .await path all _ _ => (.ok (store.query path all), store)
  | .put path value => store.settle (store.put path value)
  | .delete path all => (.ok (), store.delete path all)
  | .transact changes => store.settle (store.transact changes)
  | .readMany paths => (.ok (store.readMany paths), store)

end Store

end EngineCatalog.KeyValue
