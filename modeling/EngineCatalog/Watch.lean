/-!
# Watching for changes

One who watches a resource keeps a `Cursor`: the index of the last change seen, and the one before.
A change whose payload turns out to be unusable is taken back, so that the next call sees it again.

`Update` is what one call of a watch gives back.
-/

namespace EngineCatalog.Watch

/-- How far a watch has come. -/
structure Cursor where
  /-- the index of the last change seen; 0 if none was -/
  last : Nat
  /-- the index of the change before -/
  previous : Nat
  deriving DecidableEq

namespace Cursor

/-- The cursor of a watch that has seen nothing. -/
def start : Cursor := ⟨0, 0⟩

/-- An index other than the last one is a change. A lower one is, too: the store has started anew. -/
def changes (cursor : Cursor) (index : Nat) : Bool :=
  index ≠ cursor.last

/-- The cursor after an index is seen. -/
def observe (cursor : Cursor) (index : Nat) : Cursor :=
  if cursor.changes index then ⟨index, cursor.last⟩ else cursor

/-- The cursor with the last change taken back. -/
def rollback (cursor : Cursor) : Cursor :=
  { cursor with last := cursor.previous }

end Cursor

/-- What one call of a watch gives back. -/
inductive Update (α : Type) where
  /-- the index did not move -/
  | unchanged
  /-- the index moved -/
  | changed (payload : α)
  deriving DecidableEq

/-- The update with its payload replaced. -/
def Update.map {α β : Type} (f : α → β) : Update α → Update β
  | .unchanged => .unchanged
  | .changed payload => .changed (f payload)

end EngineCatalog.Watch
