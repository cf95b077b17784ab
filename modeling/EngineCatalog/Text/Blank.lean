/-!
# White space and blank text

The white space of a text is the Unicode property White_Space: twenty-five characters, among them
the next-line control U+0085, the no-break space U+00A0 and the ideographic space U+3000, and not
the zero-width space U+200B or the byte order mark U+FEFF.

* `trim` — the text without the white space at its two ends.
* `isBlank` — the text holds nothing but white space.
-/

namespace EngineCatalog.Text

/-- The Unicode property White_Space. -/
def isSpace (c : Char) : Bool :=
  let n := c.toNat
  (9 ≤ n && n ≤ 13) || n = 0x20 || n = 0x85 || n = 0xa0 || n = 0x1680
    || (0x2000 ≤ n && n ≤ 0x200a) || n = 0x2028 || n = 0x2029 || n = 0x202f || n = 0x205f
    || n = 0x3000

/-- The characters left when the elements of the class are taken off both ends. -/
def stripChars (drop : Char → Bool) (cs : List Char) : List Char :=
  ((cs.dropWhile drop).reverse.dropWhile drop).reverse

/-- The text without the white space at its two ends. -/
def trim (text : String) : String :=
  String.ofList (stripChars isSpace text.toList)

/-- The text holds nothing but white space; the empty text is blank. -/
def isBlank (text : String) : Bool :=
  text.toList.all isSpace

end EngineCatalog.Text
