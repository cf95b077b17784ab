import EngineCatalog.Dict

/-!
# Keys as paths of segments

A key is a path: segments with slashes between them. What a key stands for is read off its place in
the tree.

* `isAbsolute` — a path that starts with a slash and does not end with one, as all keys do.
* `childKey?` — the segment of a direct child of a path.
* `chainId?` — the segment two places after a marker, which is where the id of a chain stands.
* `lastSegment?` — the last segment, which is where the name of a variable stands.
* `bareKey` — a key without the slash it starts with, as transactions and addresses have it.
-/

namespace EngineCatalog

/-- The segments of a path; there is always one more than there are slashes. -/
def segments : List Char → List (List Char)
  | [] => [[]]
  | c :: rest =>
    match segments rest with
    | [] => [[c]]
    | first :: more => if c = '/' then [] :: first :: more else (c :: first) :: more

/-- The path starts with a slash and goes on, but not up to another slash at its end. -/
def isAbsolute (path : String) : Bool :=
  match path.toList with
  | '/' :: c :: rest => (c :: rest).getLast? ≠ some '/'
  | _ => false

/-- The part is a segment: it is not empty and has no slash. -/
def isSegment (part : List Char) : Bool :=
  !part.isEmpty && !part.contains '/'

/-- The segment by which a key is a direct child of a path. -/
def childKey? (path key : String) : Option String :=
  match dropStart? path.toList key.toList with
  | some ('/' :: child) => if isSegment child then some (String.ofList child) else none
  | _ => none

/-- The text without the slashes at its front. -/
def trimSlashes (text : String) : String :=
  String.ofList (text.toList.dropWhile (· = '/'))

/-- The segment two places after the first one that is the marker. -/
def segmentAfter? (marker : List Char) (parts : List (List Char)) : Option (List Char) :=
  match parts.dropWhile (· ≠ marker) with
  | _ :: _ :: part :: _ => some part
  | _ => none

/-- The id of the chain that a key belongs to. The marker is taken with or without slashes at its
front. -/
def chainId? (key marker : String) : Option String :=
  match segmentAfter? (trimSlashes marker).toList (segments key.toList) with
  | some (c :: id) => some (String.ofList (c :: id))
  | _ => none

/-- The last segment of a key. -/
def lastSegment? (key : String) : Option String :=
  match (segments key.toList).getLast? with
  | some (c :: name) => some (String.ofList (c :: name))
  | _ => none

/-- The key without the slash it starts with. -/
def bareKey (key : String) : String :=
  match key.toList with
  | '/' :: rest => String.ofList rest
  | _ => key

end EngineCatalog
