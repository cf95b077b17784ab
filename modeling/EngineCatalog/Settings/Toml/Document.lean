import EngineCatalog.Settings.Toml.Moment
import EngineCatalog.Settings.Toml.Number
import EngineCatalog.Settings.Toml.Tree

/-!
# Values and lines of a settings file

* `readValue` — any value. Lists and tables within lines may stand in one another up to a depth; the
  reader recurses on how much more of it is allowed.
* `readStatement` — a line that opens a table or names a value.
* `parse` — the table that a whole text writes.

The loops take a bound on the number of items that is the length of the text that is left: each item
takes one character at least.
-/

namespace EngineCatalog.Settings.Toml

/-! ## Lists and tables within lines -/

/-- How many lists and tables may stand within one another. -/
def nestingLimit : Nat := 79

/-- At most so many items of a list, and the characters after its closing bracket. Items may stand
on lines of their own, and a comma may follow the last one. -/
def readItemsWithin (item : List Char → Reading Raw) : Nat → List Char → Reading (List Raw)
  | 0, _ => none
  | bound + 1, cs =>
    match skipLines cs with
    | [] => none
    | ']' :: rest => some ([], rest)
    | cs =>
      match item cs with
      | none => none
      | some (value, rest) =>
        match skipLines rest with
        | ',' :: rest =>
          (readItemsWithin item bound rest).map fun (values, rest) => (value :: values, rest)
        | ']' :: rest => some ([value], rest)
        | _ => none

/-- The items of a list after its opening bracket. -/
def readItems (item : List Char → Reading Raw) (cs : List Char) : Reading (List Raw) :=
  readItemsWithin item (cs.length + 1) cs

/-- The opening brace. -/
def openingBrace : Char := '\x7b'

/-- The closing brace. -/
def closingBrace : Char := '\x7d'

/-- A path and the value it is given. -/
def readPair (value : List Char → Reading Raw) (cs : List Char) : Reading (List String × Raw) :=
  match readPath cs with
  | none => none
  | some (path, rest) =>
    match after? '=' rest with
    | none => none
    | some rest => (value (skipBlanks rest)).map fun (raw, rest) => ((path, raw), rest)

/-- At most so many pairs of a table within a line, put into it one after the other, and the
characters after its closing brace. -/
def readPairsWithin (value : List Char → Reading Raw) : Nat → Table → List Char → Reading Table
  | 0, _, _ => none
  | bound + 1, table, cs =>
    match readPair value cs with
    | none => none
    | some ((path, raw), rest) =>
      match assign path raw table with
      | none => none
      | some table =>
        match skipBlanks rest with
        | [] => none
        | c :: rest =>
          if c = ',' then readPairsWithin value bound table rest
          else if c = closingBrace then some (table, rest)
          else none

/-- A table within a line after its opening brace. -/
def readInlineTable (value : List Char → Reading Raw) (cs : List Char) : Reading Raw :=
  match skipBlanks cs with
  | [] => none
  | c :: rest =>
    if c = closingBrace then some (.table [], rest)
    else
      (readPairsWithin value (cs.length + 1) (.opened, []) cs).map fun ((_, entries), rest) =>
        (.table (Tree.entriesRaw entries), rest)

/-! ## Any value -/

/-- A date, a time or a number. -/
def readMomentOrNumber (cs : List Char) : Reading Raw :=
  match readMoment cs with
  | some (text, rest) => some (.text text, rest)
  | none => readNumber cs

/-- A value, within which `depth` more lists and tables may stand in one another. -/
def readValue (depth : Nat) : List Char → Reading Raw
  | [] => none
  | 't' :: 'r' :: 'u' :: 'e' :: rest => some (.bool true, rest)
  | 'f' :: 'a' :: 'l' :: 's' :: 'e' :: rest => some (.bool false, rest)
  | c :: rest =>
    if c = quotationMark || c = apostrophe then
      (readQuoted c rest).map fun (text, rest) => (.text text, rest)
    else if c = '[' then
      match depth with
      | 0 => none
      | depth + 1 => (readItems (readValue depth) rest).map fun (items, rest) => (.list items, rest)
    else if c = openingBrace then
      match depth with
      | 0 => none
      | depth + 1 => readInlineTable (readValue depth) rest
    else readMomentOrNumber (c :: rest)

/-! ## Lines -/

/-- A line of a settings file. -/
inductive Statement where
  /-- a table is opened, or one more table of a list -/
  | opening (isItem : Bool) (path : List String)
  /-- a path is given a value -/
  | pair (path : List String) (raw : Raw)

/-- The path of a table that is opened, up to the brackets that close. -/
def readOpening (isItem : Bool) (cs : List Char) : Reading Statement :=
  match readPath cs with
  | some (path, ']' :: rest) =>
    if isItem then (after? ']' rest).map fun rest => (.opening true path, rest)
    else some (.opening false path, rest)
  | _ => none

/-- A line that says something. -/
def readStatement : List Char → Reading Statement
  | '[' :: '[' :: rest => readOpening true rest
  | '[' :: rest => readOpening false rest
  | cs => (readPair (readValue nestingLimit) cs).map fun ((path, raw), rest) =>
    (.pair path raw, rest)

/-- The tables read so far, with the path of the table that is open. -/
structure Draft where
  /-- the table of the whole text -/
  root : Table
  /-- the path of the table that is open -/
  opened : List String

/-- The draft after one more line. -/
def Draft.add (draft : Draft) : Statement → Option Draft
  | .opening isItem path => (openAt isItem path draft.root).map fun root => ⟨root, path⟩
  | .pair path raw =>
    (assignBelow draft.opened path raw draft.root).map fun root => { draft with root := root }

/-- Adds at most so many lines. -/
def readLinesWithin : Nat → Draft → List Char → Option Draft
  | 0, _, _ => none
  | bound + 1, draft, cs =>
    match skipLines cs with
    | [] => some draft
    | '#' :: rest => if (lineEnd? ('#' :: rest)).isSome then some draft else none
    | cs =>
      match readStatement cs with
      | none => none
      | some (statement, rest) =>
        match draft.add statement, lineEnd? rest with
        | some draft, some rest => readLinesWithin bound draft rest
        | _, _ => none

/-- The text without the mark of its encoding, which may stand in front. -/
def withoutMark : List Char → List Char
  | '\ufeff' :: rest => rest
  | cs => cs

/-- The table that a text writes. -/
def parse (text : String) : Option (List (String × Raw)) :=
  let cs := withoutMark text.toList
  (readLinesWithin (cs.length + 1) ⟨(.opened, []), []⟩ cs).map fun draft =>
    Tree.entriesRaw draft.root.2

end EngineCatalog.Settings.Toml
