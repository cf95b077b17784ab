import EngineCatalog.Settings.Toml.Lexical

/-!
# Dates and times of a settings file

A settings file may give a date, a time of day, or both with or without the distance from universal
time. No setting is a date; one is passed on as text, in one form for all ways of writing it: `T`
before the time, `Z` for universal time, and no zeros at the end of a fraction of a second, of which
nine digits count.

* `readMoment` — the text of a date or time.
-/

namespace EngineCatalog.Settings.Toml

/-- A number of so many digits. -/
def readField (count : Nat) (cs : List Char) : Reading Nat :=
  let digits := cs.take count
  if digits.length = count && digits.all Char.isDigit then
    some (digits.foldl (fun value digit => value * 10 + (digit.toNat - '0'.toNat)) 0, cs.drop count)
  else none

/-- The digits of a number, with zeros in front up to a width. -/
def padded (width n : Nat) : String :=
  let digits := Nat.toDigits 10 n
  String.ofList (List.replicate (width - digits.length) '0' ++ digits)

/-- The characters after the one expected. -/
def after? (expected : Char) : List Char → Option (List Char)
  | [] => none
  | c :: rest => if c = expected then some rest else none

/-- The days of a month. -/
def monthDays (year month : Nat) : Nat :=
  if month = 2 then
    if year % 4 = 0 && (year % 100 ≠ 0 || year % 400 = 0) then 29 else 28
  else if [4, 6, 9, 11].contains month then 30
  else 31

/-- A date. -/
def readDate (cs : List Char) : Reading String :=
  match readField 4 cs with
  | none => none
  | some (year, rest) =>
    match (after? '-' rest).bind (readField 2) with
    | none => none
    | some (month, rest) =>
      match (after? '-' rest).bind (readField 2) with
      | none => none
      | some (day, rest) =>
        if 1 ≤ month && month ≤ 12 && 1 ≤ day && day ≤ monthDays year month then
          some (s!"{padded 4 year}-{padded 2 month}-{padded 2 day}", rest)
        else none

/-- An hour and a minute with a colon between them. -/
def readHour (cs : List Char) : Reading String :=
  match readField 2 cs with
  | none => none
  | some (hour, rest) =>
    match (after? ':' rest).bind (readField 2) with
    | none => none
    | some (minute, rest) =>
      if hour ≤ 23 && minute ≤ 59 then some (s!"{padded 2 hour}:{padded 2 minute}", rest) else none

/-- A fraction of a second after its point: nine digits of it count. -/
def fractionText (digits : List Char) : String :=
  match ((digits.take 9).reverse.dropWhile (· = '0')).reverse with
  | [] => ""
  | digits => String.ofList ('.' :: digits)

/-- The fraction of a second, if there is one. -/
def readFractionOfSecond : List Char → Reading String
  | '.' :: rest =>
    match rest.takeWhile Char.isDigit with
    | [] => none
    | digits => some (fractionText digits, rest.dropWhile Char.isDigit)
  | cs => some ("", cs)

/-- A time of day. -/
def readTime (cs : List Char) : Reading String :=
  match readHour cs with
  | none => none
  | some (hour, rest) =>
    match (after? ':' rest).bind (readField 2) with
    | none => none
    | some (second, rest) =>
      if 60 < second then none
      else
        (readFractionOfSecond rest).map fun (fraction, rest) =>
          (s!"{hour}:{padded 2 second}{fraction}", rest)

/-- A distance to the west; none at all counts as one to the east. -/
def westText (hour : String) : String :=
  if hour = "00:00" then "+" ++ hour else "-" ++ hour

/-- The distance from universal time, if it is given. -/
def readOffset : List Char → Reading String
  | 'Z' :: rest => some ("Z", rest)
  | 'z' :: rest => some ("Z", rest)
  | '+' :: rest => (readHour rest).map fun (hour, rest) => ("+" ++ hour, rest)
  | '-' :: rest => (readHour rest).map fun (hour, rest) => (westText hour, rest)
  | cs => some ("", cs)

/-- A character that stands between a date and a time. -/
def isMomentGap (c : Char) : Bool :=
  c = 'T' || c = 't' || c = ' '

/-- What may follow a date: a time, with or without the distance from universal time. -/
def readTimeAfter (date : String) : List Char → Reading String
  | [] => some (date, [])
  | c :: rest =>
    match if isMomentGap c then readTime rest else none with
    | none => some (date, c :: rest)
    | some (time, rest) =>
      (readOffset rest).map fun (offset, rest) => (s!"{date}T{time}{offset}", rest)

/-- The text of a date or time. -/
def readMoment (cs : List Char) : Reading String :=
  match readDate cs with
  | some (date, rest) => readTimeAfter date rest
  | none => readTime cs

end EngineCatalog.Settings.Toml
