import EngineCatalog.Text.Unprintable

/-!
# Quoted text

A text that a message shows between double quotes, so that its ends and its odd characters can be
seen:

* the quote and the backslash get a backslash before them;
* line feed, carriage return, tabulator and the null character are written `\n`, `\r`, `\t`, `\0`;
* every other character that does not print, or that would attach to the one before it, is written
  by its number in hexadecimal, `\u{200b}`;
* all else stands for itself, the single quote included.

`quote` is the whole text with its quotes.
-/

namespace EngineCatalog.Text

/-- The digits of a number in base sixteen, in lower case and without leading zeros. -/
def hexDigits (n : Nat) : List Char :=
  Nat.toDigits 16 n

/-- A character given by its number. -/
def numbered (c : Char) : List Char :=
  ['\\', 'u', '\x7b'] ++ hexDigits c.toNat ++ ['\x7d']

/-- A character as it stands in a quoted text. -/
def quotedChar (c : Char) : List Char :=
  match c with
  | '\x00' => ['\\', '0']
  | '\t' => ['\\', 't']
  | '\r' => ['\\', 'r']
  | '\n' => ['\\', 'n']
  | '\\' => ['\\', '\\']
  | '"' => ['\\', '"']
  | c => if isExtending c || isUnprintable c then numbered c else [c]

/-- A text between double quotes. -/
def quote (text : String) : String :=
  String.ofList ('"' :: text.toList.flatMap quotedChar ++ ['"'])

end EngineCatalog.Text
