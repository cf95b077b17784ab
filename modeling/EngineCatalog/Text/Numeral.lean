/-!
# Decimal numerals of bounded numbers

Reading an unsigned number below a bound from its decimal digits. A single `+` may stand before the
digits; leading zeros are allowed; nothing else is.

* `NumeralFault` — why a text is not such a numeral, with the words a message uses for it.
* `readNumeral` — the number, or the fault met first from the left: a text whose digits overflow
  the bound before a wrong character is reached is too large, not malformed.
-/

namespace EngineCatalog.Text

/-- Why a text is not a numeral of a number below the bound. -/
inductive NumeralFault where
  /-- there is no text -/
  | empty
  /-- a character is not a decimal digit, or there is a sign and no digit -/
  | invalidDigit
  /-- the number reaches the bound -/
  | tooLarge
  deriving DecidableEq, Repr

/-- The words for a fault. -/
def NumeralFault.message : NumeralFault → String
  | .empty => "cannot parse integer from empty string"
  | .invalidDigit => "invalid digit found in string"
  | .tooLarge => "number too large to fit in target type"

/-- Decimal digits, one at least. -/
def areDigits (cs : List Char) : Bool :=
  !cs.isEmpty && cs.all Char.isDigit

/-- The value of a decimal digit; only the ten ASCII digits are digits. -/
def digitValue? (c : Char) : Option Nat :=
  if '0' ≤ c && c ≤ '9' then some (c.toNat - '0'.toNat) else none

/-- The number whose digits so far give `value` and which goes on with the given characters. -/
def readDigits (bound value : Nat) : List Char → Except NumeralFault Nat
  | [] => .ok value
  | c :: rest =>
    match digitValue? c with
    | none => .error .invalidDigit
    | some digit =>
      if value * 10 + digit < bound then readDigits bound (value * 10 + digit) rest
      else .error .tooLarge

/-- The number below `bound` that the characters write. -/
def readNumeral (bound : Nat) (text : List Char) : Except NumeralFault Nat :=
  match text with
  | [] => .error .empty
  | ['+'] => .error .invalidDigit
  | '+' :: digits => readDigits bound 0 digits
  | digits => readDigits bound 0 digits

/-- One more than the largest number a 64-bit word holds. -/
def wordBound : Nat := Nat.pow 2 64

/-- The number below `2 ^ 64` that the text writes. -/
def readWord (text : String) : Except NumeralFault Nat :=
  readNumeral wordBound text.toList

end EngineCatalog.Text
