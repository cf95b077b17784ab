import EngineCatalog.Decimal.Shortest

/-!
# The binary number nearest to a decimal

A decimal number is read as the floating-point number nearest to it; of two equally near ones the
one with the even significand is taken. The quotient of two whole numbers is rounded in exact
arithmetic.

* `halfEven` — a quotient rounded to a whole number.
* `binaryExponent` — the power of two by which a quotient is divided to get a significand.
* `nearestFloat` — the number nearest to a decimal. A decimal that is too large or too small for
  any number is told by the place of its first digit, before a power of ten is formed.
-/

namespace EngineCatalog

/-- A quotient rounded to the nearest whole number, half ways to the even one. -/
def halfEven (a b : Nat) : Nat :=
  let below := a / b
  let twice := 2 * (a % b)
  if twice < b ∨ (twice = b ∧ below % 2 = 0) then below else below + 1

/-- The power of two that leaves a significand of 53 binary digits of a quotient, or the least power
there is. -/
def binaryExponent (a b : Nat) : Int :=
  let e : Int := (a.log2 : Int) - b.log2 - 52
  let lower := a * Nat.pow 2 (-(e + 52)).toNat < b * Nat.pow 2 (e + 52).toNat
  max (if lower then e - 1 else e) (-1074)

/-- The bits of infinity. -/
def infinityBits : Nat := 0x7ff0000000000000

/-- The floating-point number nearest to the quotient of two positive numbers. -/
def nearestQuotient (a b : Nat) : Float :=
  let e := binaryExponent a b
  let significand := halfEven (a * Nat.pow 2 (-e).toNat) (b * Nat.pow 2 e.toNat)
  let bits := (e + 1074).toNat * Nat.pow 2 52 + significand
  Float.ofBits (UInt64.ofNat (min bits infinityBits))

/-- The number that decimal digits write. -/
def digitsValue (digits : List Char) : Nat :=
  digits.foldl (fun value digit => value * 10 + (digit.toNat - '0'.toNat)) 0

/-- The decimal with digits before and after its point, times a power of ten. -/
def Decimal.ofDigits (whole fraction : List Char) (power : Int) : Decimal :=
  ⟨digitsValue (whole ++ fraction), power - fraction.length⟩

/-- From this power of ten on, numbers are infinite. -/
def highestPower : Int := 310

/-- Below this power of ten, numbers are zero. -/
def lowestPower : Int := -325

/-- The floating-point number nearest to a decimal. -/
def nearestFloat (x : Decimal) : Float :=
  if x.digits = 0 then 0.0
  else if highestPower < x.leading then Float.ofBits (UInt64.ofNat infinityBits)
  else if x.leading < lowestPower then 0.0
  else if 0 ≤ x.exponent then nearestQuotient (x.digits * Nat.pow 10 x.exponent.toNat) 1
  else nearestQuotient x.digits (Nat.pow 10 (-x.exponent).toNat)

end EngineCatalog
