import EngineCatalog.Settings.Raw

/-!
# The words of a settings file

A settings file is a TOML text: lines that name a value or open a table. Reading takes characters
off the front of the text and gives back what they say together with the characters that are left;
it gives nothing back if they follow none of the forms. This module reads blanks and the ends of
lines, quoted texts, and the names of values.

* `lineEnd?` — the end of a line, with the blanks and the comment before it.
* `readQuoted` — a quoted text. Between quotation marks escapes are resolved, between apostrophes
  they are not; three of either make a text of several lines, which starts after the first line end.
* `readPath` — a name, or several with points between them.
-/

namespace EngineCatalog.Settings.Toml

/-- What a reader makes of the front of some characters, and the characters after it. -/
abbrev Reading (α : Type) : Type := Option (α × List Char)

/-! ## Blanks, comments and the ends of lines -/

/-- A blank within a line. -/
def isBlankChar (c : Char) : Bool :=
  c = ' ' || c = '\t'

/-- The characters after the blanks. -/
def skipBlanks (cs : List Char) : List Char :=
  cs.dropWhile isBlankChar

/-- A character that may stand for itself within a line: no control character but the tab. -/
def isPlainChar (c : Char) : Bool :=
  c = '\t' || (' ' ≤ c && c ≠ '\x7f')

/-- The characters after the end of a line. -/
def afterNewline? : List Char → Option (List Char)
  | '\n' :: rest => some rest
  | '\r' :: '\n' :: rest => some rest
  | _ => none

/-- The characters after a comment, if there is one. -/
def skipComment : List Char → List Char
  | '#' :: rest => rest.dropWhile isPlainChar
  | cs => cs

/-- The characters after the end of a line or of the text, before which only blanks and a comment
may stand. -/
def lineEnd? (cs : List Char) : Option (List Char) :=
  match skipComment (skipBlanks cs) with
  | [] => some []
  | rest => afterNewline? rest

/-- Passes over at most so many ends of lines, and over the blanks and comments before them. -/
def skipLinesWithin : Nat → List Char → List Char
  | 0, cs => cs
  | bound + 1, cs =>
    match afterNewline? (skipComment (skipBlanks cs)) with
    | some rest => skipLinesWithin bound rest
    | none => skipBlanks cs

/-- The characters after all blanks, comments and ends of lines. -/
def skipLines (cs : List Char) : List Char :=
  skipLinesWithin cs.length cs

/-- The characters after all blanks and ends of lines. -/
def skipBreaks : List Char → List Char
  | [] => []
  | '\r' :: '\n' :: rest => skipBreaks rest
  | c :: rest => if isBlankChar c || c = '\n' then skipBreaks rest else c :: rest

/-! ## Quoted texts -/

/-- The quotation mark. -/
def quotationMark : Char := '\x22'

/-- The apostrophe. -/
def apostrophe : Char := '\x27'

/-- The backslash. -/
def backslash : Char := '\x5c'

/-- The value of a hexadecimal digit of either case. -/
def hexDigit? (c : Char) : Option Nat :=
  if '0' ≤ c && c ≤ '9' then some (c.toNat - '0'.toNat)
  else if 'a' ≤ c && c ≤ 'f' then some (c.toNat - 'a'.toNat + 10)
  else if 'A' ≤ c && c ≤ 'F' then some (c.toNat - 'A'.toNat + 10)
  else none

/-- The number that so many hexadecimal digits go on to write after `value`. -/
def hexNumber? (value : Nat) : Nat → List Char → Option Nat
  | 0, _ => some value
  | _ + 1, [] => none
  | count + 1, c :: rest => do hexNumber? (value * 16 + (← hexDigit? c)) count rest

/-- The character whose number so many hexadecimal digits write. -/
def hexChar? (count : Nat) (cs : List Char) : Option Char := do
  let n ← hexNumber? 0 count cs
  if n.isValidChar then some (Char.ofNat n) else none

/-- The character that an escape stands for, and how many characters it takes after the
backslash. -/
def readEscape? : List Char → Option (Char × Nat)
  | [] => none
  | 'b' :: _ => some ('\x08', 1)
  | 't' :: _ => some ('\t', 1)
  | 'n' :: _ => some ('\n', 1)
  | 'f' :: _ => some ('\x0c', 1)
  | 'r' :: _ => some ('\r', 1)
  | 'u' :: rest => (hexChar? 4 rest).map fun c => (c, 5)
  | 'U' :: rest => (hexChar? 8 rest).map fun c => (c, 9)
  | c :: _ => if c = quotationMark || c = backslash then some (c, 1) else none

/-- The reading with a character in front of its result. -/
def before (c : Char) (reading : Reading (List Char)) : Reading (List Char) :=
  reading.map fun (cs, rest) => (c :: cs, rest)

/-- A text of one line up to its closing mark, after `skip` characters that belong to an escape
already read. -/
def readLine (mark : Char) (skip : Nat) : List Char → Reading (List Char)
  | [] => none
  | c :: rest =>
    match skip with
    | skip + 1 => readLine mark skip rest
    | 0 =>
      if c = mark then some ([], rest)
      else if c = backslash && mark = quotationMark then
        match readEscape? rest with
        | some (escaped, length) => before escaped (readLine mark length rest)
        | none => none
      else if isPlainChar c then before c (readLine mark 0 rest)
      else none

/-- How many of the characters at the front are the mark, five at most. -/
def marks (mark : Char) (cs : List Char) : Nat :=
  min 5 (cs.takeWhile (· = mark)).length

/-- How many characters a backslash at the end of a line takes after it, with the blanks and line
ends that follow. -/
def joinLength? (cs : List Char) : Option Nat :=
  (afterNewline? (skipBlanks cs)).map fun rest => cs.length - (skipBreaks rest).length

/-- A text of several lines up to its three closing marks, after `skip` characters that are already
read. Up to two more marks before the closing ones belong to the text, and every end of a line is
one character. -/
def readLinesOf (mark : Char) (skip : Nat) : List Char → Reading (List Char)
  | [] => none
  | c :: rest =>
    match skip with
    | skip + 1 => readLinesOf mark skip rest
    | 0 =>
      if c = mark && 3 ≤ marks mark (c :: rest) then
        let count := marks mark (c :: rest)
        some (List.replicate (count - 3) mark, rest.drop (count - 1))
      else if c = backslash && mark = quotationMark then
        match joinLength? rest with
        | some length => readLinesOf mark length rest
        | none =>
          match readEscape? rest with
          | some (escaped, length) => before escaped (readLinesOf mark length rest)
          | none => none
      else if c = '\n' || isPlainChar c then before c (readLinesOf mark 0 rest)
      else if (afterNewline? (c :: rest)).isSome then before '\n' (readLinesOf mark 1 rest)
      else none

/-- A quoted text after its first mark. -/
def readQuoted (mark : Char) (cs : List Char) : Reading String :=
  let reading :=
    match cs with
    | a :: b :: rest =>
      if a = mark && b = mark then
        readLinesOf mark 0 ((afterNewline? rest).getD rest)
      else readLine mark 0 cs
    | _ => readLine mark 0 cs
  reading.map fun (text, rest) => (String.ofList text, rest)

/-! ## Names -/

/-- A character of a name that is not quoted. -/
def isNameChar (c : Char) : Bool :=
  c.isAlphanum || c = '_' || c = '-'

/-- A name. A quoted one has one line. -/
def readName : List Char → Reading String
  | [] => none
  | c :: rest =>
    if c = quotationMark || c = apostrophe then
      (readLine c 0 rest).map fun (name, rest) => (String.ofList name, rest)
    else if isNameChar c then
      some (String.ofList ((c :: rest).takeWhile isNameChar), (c :: rest).dropWhile isNameChar)
    else none

/-- How many names a path may have. -/
def longestPath : Nat := 79

/-- At most so many names with points between them, and blanks around each. -/
def readPathWithin : Nat → List Char → Reading (List String)
  | 0, _ => none
  | bound + 1, cs =>
    match readName (skipBlanks cs) with
    | none => none
    | some (name, rest) =>
      match skipBlanks rest with
      | '.' :: rest => (readPathWithin bound rest).map fun (names, rest) => (name :: names, rest)
      | rest => some ([name], rest)

/-- A name, or several with points between them. -/
def readPath (cs : List Char) : Reading (List String) :=
  readPathWithin longestPath cs

end EngineCatalog.Settings.Toml
