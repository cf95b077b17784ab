/-!
# The shortest decimal that reads back

A binary floating-point number is written with the fewest decimal digits that lie nearer to it than
to any other such number, and of those with the nearest.

* `Binary` — a positive number `significand * 2 ^ exponent` with the interval of reals that round to
  it. The interval reaches half the way to the two neighbours; its ends belong to it exactly when
  the significand is even. Below a power of two the neighbour is only half as far.
* `Decimal` — a positive number `digits * 10 ^ exponent`.
* `shortest` — for one digit, two digits, and so on up to seventeen, the two points of that decimal
  grid that enclose the number are tested in exact arithmetic. The first grid with a point in the
  interval wins: a point of a grid lies in the interval only if one of these two does. Of two points
  the nearer wins, and of two equally near ones the even.
-/

namespace EngineCatalog

/-- A positive binary number and what is needed to tell its neighbours. -/
structure Binary where
  /-- the significand, a positive whole number -/
  significand : Nat
  /-- the power of two it is multiplied by -/
  exponent : Int
  /-- the number below is only half as far as the number above -/
  closeBelow : Bool
  deriving DecidableEq, Repr

/-- A positive decimal number. -/
structure Decimal where
  /-- the digits, read as a whole number -/
  digits : Nat
  /-- the power of ten they are multiplied by -/
  exponent : Int
  deriving DecidableEq, Repr

namespace Binary

/-- The absolute value of a finite number other than zero. -/
def ofFloat (x : Float) : Binary :=
  let bits : Nat := x.toBits.toNat
  let field : Nat := bits / Nat.pow 2 52 % Nat.pow 2 11
  let fraction : Nat := bits % Nat.pow 2 52
  if field = 0 then ⟨fraction, -1074, false⟩
  else ⟨Nat.pow 2 52 + fraction, Int.ofNat field - 1075, fraction = 0 ∧ 1 < field⟩

/-! ## A decimal grid

Against the grid of the multiples of `10 ^ e` the number is the quotient of two whole numbers. The
quotients below are taken in quarters of the last binary place, so that the ends of the interval are
whole as well. -/

/-- What a number of quarters of the last place is multiplied by, against a grid. -/
def gridFactor (x : Binary) (e : Int) : Nat :=
  Nat.pow 2 (x.exponent - 2).toNat * Nat.pow 10 (-e).toNat

/-- What a number of grid steps is multiplied by. -/
def gridUnit (x : Binary) (e : Int) : Nat :=
  Nat.pow 2 (2 - x.exponent).toNat * Nat.pow 10 e.toNat

/-- Does a multiple of `10 ^ e` round to the number? -/
def admits (x : Binary) (e : Int) (steps : Nat) : Bool :=
  let least := (4 * x.significand - if x.closeBelow then 1 else 2) * x.gridFactor e
  let most := (4 * x.significand + 2) * x.gridFactor e
  let point := steps * x.gridUnit e
  if x.significand % 2 = 0 then least ≤ point && point ≤ most
  else least < point && point < most

/-- How many decimal digits a whole number has. -/
def digitCount (n : Nat) : Nat :=
  (Nat.toDigits 10 n).length

/-- The power of ten of the first digit of the number. -/
def leadingExponent (x : Binary) : Int :=
  let value := 4 * x.significand * x.gridFactor 0
  let unit := x.gridUnit 0
  if unit ≤ value then (digitCount (value / unit) : Int) - 1
  else -(digitCount (unit / value) : Int)

/-- The point of a grid that rounds to the number, if there is one: the nearer of the two that
enclose it. -/
def onGrid? (x : Binary) (e : Int) : Option Nat :=
  let value := 4 * x.significand * x.gridFactor e
  let unit := x.gridUnit e
  let below := value / unit
  let above := below + 1
  match x.admits e below && 0 < below, x.admits e above with
  | false, false => none
  | true, false => some below
  | false, true => some above
  | true, true =>
    let down := value - below * unit
    let up := above * unit - value
    if down < up then some below
    else if up < down then some above
    else if below % 2 = 0 then some below
    else some above

/-- The first grid with a point that rounds to the number, among those with `digits` digits and
with up to `more` digits beyond. -/
def search (x : Binary) (leading : Int) (digits : Nat) : Nat → Decimal
  | 0 =>
    let e := leading + 1 - digits
    ⟨4 * x.significand * x.gridFactor e / x.gridUnit e, e⟩
  | more + 1 =>
    let e := leading + 1 - digits
    match x.onGrid? e with
    | some steps => ⟨steps, e⟩
    | none => search x leading (digits + 1) more

end Binary

namespace Decimal

/-- Takes up to `count` zeros off the end of the digits. -/
def dropZeros (x : Decimal) : Nat → Decimal
  | 0 => x
  | count + 1 =>
    if x.digits % 10 = 0 ∧ x.digits ≠ 0 then
      dropZeros ⟨x.digits / 10, x.exponent + 1⟩ count
    else x

/-- The digits as characters. -/
def digitChars (x : Decimal) : List Char :=
  Nat.toDigits 10 x.digits

/-- The power of ten of the first digit. -/
def leading (x : Decimal) : Int :=
  x.exponent + x.digitChars.length - 1

/-- The digits with a point at their place, and zeros as far as the point. A whole number ends in
the characters `whole`. -/
def positional (x : Decimal) (whole : List Char) : List Char :=
  let digits := x.digitChars
  if 0 ≤ x.exponent then digits ++ List.replicate x.exponent.toNat '0' ++ whole
  else
    let fraction := (-x.exponent).toNat
    if fraction < digits.length then
      digits.take (digits.length - fraction) ++ '.' :: digits.drop (digits.length - fraction)
    else '0' :: '.' :: List.replicate (fraction - digits.length) '0' ++ digits

/-- One digit, a point and the others if there are any, and the power of ten with its sign. -/
def scientific (x : Decimal) : List Char :=
  let power := x.leading
  let sign := if power < 0 then '-' else '+'
  let fraction :=
    match x.digitChars.drop 1 with
    | [] => []
    | others => '.' :: others
  x.digitChars.take 1 ++ fraction ++ 'e' :: sign :: Nat.toDigits 10 power.natAbs

end Decimal

/-- The shortest decimal that reads back as the number, for a finite number other than zero. -/
def shortest (x : Float) : Decimal :=
  let b := Binary.ofFloat x
  (b.search b.leadingExponent 1 17).dropZeros 20

end EngineCatalog
