import EngineCatalog.Settings.Raw

/-!
# The tree of tables of a settings file

The lines of a settings file build a tree of tables. A table can be opened by a line of its own, it
can come into being because something below it is named, or be written as one value.

* `Tree` — a table under construction with how it came into being (`Origin`), a list of tables, or
  a value that is complete.
* `openAt` — a line that opens a table, or one more table of a list. A table is opened once; one
  that only came into being because something below it was opened can still be opened.
* `assign` — a line that names a value, by a path below the table that is open. The tables on the
  path are those of such paths alone: neither a table that was opened nor one written as a value
  is added to.
-/

namespace EngineCatalog.Settings.Toml

/-- How a table came into being. -/
inductive Origin where
  /-- it was opened -/
  | opened
  /-- a table below it was opened -/
  | implied
  /-- a value below it was named -/
  | named
  deriving DecidableEq

/-- What stands at a name. -/
inductive Tree where
  /-- a complete value -/
  | value (raw : Raw)
  /-- a table -/
  | table (origin : Origin) (entries : List (String × Tree))
  /-- a list of tables, the last one first -/
  | tables (items : List (List (String × Tree)))

namespace Tree

mutual

/-- The value that a tree is. -/
def toRaw : Tree → Raw
  | value raw => raw
  | table _ entries => .table (entriesRaw entries)
  | tables items => .list (itemsRaw [] items)

/-- The values of entries. -/
def entriesRaw : List (String × Tree) → List (String × Raw)
  | [] => []
  | (name, tree) :: more => (name, tree.toRaw) :: entriesRaw more

/-- The values of tables in the opposite order, in front of others. -/
def itemsRaw (values : List Raw) : List (List (String × Tree)) → List Raw
  | [] => values
  | item :: more => itemsRaw (.table (entriesRaw item) :: values) more

end

end Tree

/-- The entries of a table. -/
abbrev Entries : Type := List (String × Tree)

/-- A table and how it came into being. -/
abbrev Table : Type := Origin × Entries

/-- Changes the table at a path below the one given. Tables that are not there come into being as
`origin` says; through a list the path leads into its last table. -/
def changeAt (origin : Origin) (mayEnter : Origin → Bool) (change : Table → Option Table) :
    List String → Table → Option Table
  | [], table => change table
  | name :: path, (own, entries) =>
    match (Sorted.find? name entries).getD (.table origin []) with
    | .value _ => none
    | .table inner below =>
      if mayEnter inner then
        (changeAt origin mayEnter change path (inner, below)).map fun (inner, below) =>
          (own, Sorted.insert name (.table inner below) entries)
      else none
    | .tables [] => none
    | .tables (last :: others) =>
      (changeAt origin mayEnter change path (.opened, last)).map fun (_, last) =>
        (own, Sorted.insert name (.tables (last :: others)) entries)

/-- Opens the table with a name. -/
def openTable (name : String) : Table → Option Table
  | (own, entries) =>
    match (Sorted.find? name entries).getD (.table .implied []) with
    | .table .implied below => some (own, Sorted.insert name (.table .opened below) entries)
    | _ => none

/-- Opens one more table of the list with a name. -/
def openItem (name : String) : Table → Option Table
  | (own, entries) =>
    match (Sorted.find? name entries).getD (.tables []) with
    | .tables items => some (own, Sorted.insert name (.tables ([] :: items)) entries)
    | _ => none

/-- Opens the table at a path, or one more table of a list. -/
def openAt (isItem : Bool) (path : List String) (root : Table) : Option Table := do
  let name ← path.getLast?
  let change := if isItem then openItem name else openTable name
  changeAt .implied (fun _ => true) change path.dropLast root

/-- Gives a value to a name of a table; a table with a path to it must be one that came into being
by such a path. -/
def assignName (isDirect : Bool) (name : String) (raw : Raw) : Table → Option Table
  | (own, entries) =>
    if isDirect = (own = .named) then none
    else
      match Sorted.find? name entries with
      | none => some (own, Sorted.insert name (.value raw) entries)
      | some _ => none

/-- Gives a value to a path below a table. -/
def assign (path : List String) (raw : Raw) (table : Table) : Option Table := do
  let name ← path.getLast?
  changeAt .named (fun origin => origin ≠ .opened) (assignName (path.length = 1) name raw)
    path.dropLast table

/-- Gives a value to a path below the table that is open. -/
def assignBelow (opened path : List String) (raw : Raw) (root : Table) : Option Table :=
  changeAt .implied (fun _ => true) (assign path raw) opened root

end EngineCatalog.Settings.Toml
