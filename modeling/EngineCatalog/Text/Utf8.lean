/-!
# Bytes read as text

Text is stored as bytes in UTF-8. Two readings of bytes:

* `decode?` — strict: the text whose encoding the bytes are, if there is one;
* `decodeLossy` — total: every maximal part that cannot belong to a character is replaced by one
  U+FFFD. A part is maximal when it is the longest start of a possible character, or a single byte
  that starts none.

Both walk the bytes with `nextChar`, which takes the first character off or says how many bytes are
lost there. Overlong forms, surrogates and numbers above U+10FFFF are no characters: the second byte
of a character is held to the range that rules them out (`secondRange`).
-/

namespace EngineCatalog.Text

/-- The bytes of a stored value or of a message on the wire. -/
abbrev Bytes : Type := List UInt8

/-- The encoding of a text. -/
def encode (text : String) : Bytes :=
  text.toList.flatMap String.utf8EncodeChar

/-- What stands at the front of some bytes: a character of a given length, or a number of bytes
that are no part of any character. -/
inductive Front where
  /-- a character and how many bytes it takes -/
  | char (c : Char) (length : Nat)
  /-- how many bytes are lost -/
  | lost (length : Nat)

/-- A byte that continues a character. -/
def isContinuation (b : UInt8) : Bool :=
  0x80 ≤ b && b ≤ 0xbf

/-- The second bytes that may follow a first byte of a character of three or four bytes. -/
def secondRange (first : UInt8) : UInt8 × UInt8 :=
  match first with
  | 0xe0 => (0xa0, 0xbf)
  | 0xed => (0x80, 0x9f)
  | 0xf0 => (0x90, 0xbf)
  | 0xf4 => (0x80, 0x8f)
  | _ => (0x80, 0xbf)

/-- May the second byte follow the first one? -/
def isSecond (first second : UInt8) : Bool :=
  (secondRange first).1 ≤ second && second ≤ (secondRange first).2

/-- The low six bits of a continuation byte. -/
def payload (b : UInt8) : Nat :=
  b.toNat % 64

/-- What stands at the front of a first byte and the bytes after it. -/
def frontOf (first : UInt8) (rest : Bytes) : Front :=
  if first < 0x80 then
    .char (Char.ofNat first.toNat) 1
  else if 0xc2 ≤ first && first ≤ 0xdf then
    match rest with
    | b :: _ =>
      if isContinuation b then .char (Char.ofNat (first.toNat % 32 * 64 + payload b)) 2
      else .lost 1
    | [] => .lost 1
  else if 0xe0 ≤ first && first ≤ 0xef then
    match rest with
    | b :: c :: _ =>
      if !isSecond first b then .lost 1
      else if !isContinuation c then .lost 2
      else .char (Char.ofNat (first.toNat % 16 * 4096 + payload b * 64 + payload c)) 3
    | [b] => if isSecond first b then .lost 2 else .lost 1
    | [] => .lost 1
  else if 0xf0 ≤ first && first ≤ 0xf4 then
    match rest with
    | b :: c :: d :: _ =>
      if !isSecond first b then .lost 1
      else if !isContinuation c then .lost 2
      else if !isContinuation d then .lost 3
      else
        .char (Char.ofNat
          (first.toNat % 8 * 262144 + payload b * 4096 + payload c * 64 + payload d)) 4
    | [b, c] =>
      if !isSecond first b then .lost 1
      else if !isContinuation c then .lost 2
      else .lost 3
    | [b] => if isSecond first b then .lost 2 else .lost 1
    | [] => .lost 1
  else
    .lost 1

/-- The characters of the bytes that are left after `skip` more bytes of the last part, with U+FFFD
for each part that is lost. -/
def lossyChars (skip : Nat) : Bytes → List Char
  | [] => []
  | b :: rest =>
    match skip with
    | skip + 1 => lossyChars skip rest
    | 0 =>
      match frontOf b rest with
      | .char c length => c :: lossyChars (length - 1) rest
      | .lost length => '\ufffd' :: lossyChars (length - 1) rest

/-- The text of the bytes, with one U+FFFD for each part that is no character. -/
def decodeLossy (bytes : Bytes) : String :=
  String.ofList (lossyChars 0 bytes)

/-- The characters of the bytes that are left after `skip` more bytes of the last character. -/
def strictChars? (skip : Nat) : Bytes → Option (List Char)
  | [] => some []
  | b :: rest =>
    match skip with
    | skip + 1 => strictChars? skip rest
    | 0 =>
      match frontOf b rest with
      | .char c length => (strictChars? (length - 1) rest).map (c :: ·)
      | .lost _ => none

/-- The text whose encoding the bytes are. -/
def decode? (bytes : Bytes) : Option String :=
  (strictChars? 0 bytes).map String.ofList

end EngineCatalog.Text
