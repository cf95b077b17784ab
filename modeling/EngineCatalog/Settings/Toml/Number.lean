import EngineCatalog.Decimal.Nearest
import EngineCatalog.Settings.Toml.Lexical

/-!
# Numbers of a settings file

Single underscores may stand between the digits of a number. A whole number has 64 bits and a sign;
it may also be written in base 16, 8 or 2, then without sign. A number with a point or a power of
ten is a floating-point number.

* `readDigits` — digits of a base, with underscores between them.
* `readNumber` — a number of any kind.
-/

namespace EngineCatalog.Settings.Toml

/-! ## Digits -/

/-- The digits at the front with underscores between them, after a first one. -/
def moreDigits (isDigit : Char → Bool) : List Char → List Char × List Char
  | [] => ([], [])
  | '_' :: c :: rest =>
    if isDigit c then
      let (digits, rest) := moreDigits isDigit rest
      (c :: digits, rest)
    else ([], '_' :: c :: rest)
  | c :: rest =>
    if isDigit c then
      let (digits, rest) := moreDigits isDigit rest
      (c :: digits, rest)
    else ([], c :: rest)

/-- The digits at the front, one at least. -/
def readDigits (isDigit : Char → Bool) : List Char → Reading (List Char)
  | [] => none
  | c :: rest =>
    if isDigit c then
      let (digits, rest) := moreDigits isDigit rest
      some (c :: digits, rest)
    else none

/-- The digits of a decimal number without leading zeros: a zero stands alone. -/
def readWholeDigits : List Char → Reading (List Char)
  | '0' :: rest => some (['0'], rest)
  | cs => readDigits Char.isDigit cs

/-! ## Whole numbers -/

/-- The whole number, if 64 bits with a sign hold it. -/
def checkInt? (n : Int) : Option Raw :=
  if -(Nat.pow 2 63 : Int) ≤ n ∧ n < (Nat.pow 2 63 : Int) then some (.int n) else none

/-- A digit of a base. -/
def isDigitOf (base : Nat) (c : Char) : Bool :=
  (hexDigit? c).any (· < base)

/-- A whole number in a base, after the letter that names the base. -/
def readBase (base : Nat) (cs : List Char) : Reading Raw :=
  match readDigits (isDigitOf base) cs with
  | none => none
  | some (digits, rest) =>
    let n := digits.foldl (fun value digit => value * base + (hexDigit? digit).getD 0) 0
    (checkInt? n).map fun value => (value, rest)

/-! ## Floating-point numbers -/

/-- The number with a sign. -/
def signed (negative : Bool) (x : Float) : Float :=
  if negative then -x else x

/-- A power of ten after its letter, with its sign. -/
def readPower (cs : List Char) : Reading Int :=
  let (negative, cs) : Bool × List Char :=
    match cs with
    | '+' :: rest => (false, rest)
    | '-' :: rest => (true, rest)
    | cs => (false, cs)
  (readDigits Char.isDigit cs).map fun (digits, rest) =>
    (if negative then -(digitsValue digits : Int) else digitsValue digits, rest)

/-- A power of ten, if there is one. -/
def readPower? : List Char → Reading Int
  | 'e' :: rest => readPower rest
  | 'E' :: rest => readPower rest
  | cs => some (0, cs)

/-- The floating-point number, which must not be too large; far below zero there is an infinite
one. -/
def checkFloat? (negative : Bool) (x : Decimal) : Option Raw :=
  let value := signed negative (nearestFloat x)
  if value.isInf && !negative then none else some (.float value)

/-- A floating-point number whose digits before the point are read. -/
def readFraction (negative : Bool) (whole fraction : List Char) (cs : List Char) : Reading Raw :=
  match readPower? cs with
  | none => none
  | some (power, rest) =>
    (checkFloat? negative (Decimal.ofDigits whole fraction power)).map fun value => (value, rest)

/-! ## Any number -/

/-- A decimal number after its sign. -/
def readDecimal (negative : Bool) (cs : List Char) : Reading Raw :=
  match readWholeDigits cs with
  | none => none
  | some (whole, rest) =>
    match rest with
    | '.' :: rest =>
      match readDigits Char.isDigit rest with
      | none => none
      | some (fraction, rest) => readFraction negative whole fraction rest
    | 'e' :: _ => readFraction negative whole [] rest
    | 'E' :: _ => readFraction negative whole [] rest
    | rest =>
      let n : Int := digitsValue whole
      (checkInt? (if negative then -n else n)).map fun value => (value, rest)

/-- A number after its sign, if it has one: one of the two words, or a decimal number. -/
def readSigned (negative : Bool) : List Char → Reading Raw
  | 'i' :: 'n' :: 'f' :: rest => some (.float (signed negative (1.0 / 0.0)), rest)
  | 'n' :: 'a' :: 'n' :: rest => some (.float (signed negative (0.0 / 0.0)), rest)
  | cs => readDecimal negative cs

/-- A number. -/
def readNumber : List Char → Reading Raw
  | '+' :: rest => readSigned false rest
  | '-' :: rest => readSigned true rest
  | '0' :: 'x' :: rest => readBase 16 rest
  | '0' :: 'o' :: rest => readBase 8 rest
  | '0' :: 'b' :: rest => readBase 2 rest
  | cs => readSigned false cs

end EngineCatalog.Settings.Toml
