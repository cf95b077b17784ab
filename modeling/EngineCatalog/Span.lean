/-!
# Spans of time

A span is a whole number of nanoseconds. Settings give spans in seconds or milliseconds; a span that
a 64-bit count of seconds cannot hold does not exist (`Span.fits`).

* `Span.add?` — the exact sum, if it exists.
* `Span.text` — the form in messages: the largest unit of `s`, `ms`, `µs`, `ns` that the span
  reaches, with the fraction of it that is left and no trailing zeros: `1.5s`, `100ms`, `0ns`.
* `Span.waitText` — the form in blocking queries: whole seconds if there are no milliseconds
  beside them, else whole milliseconds.
-/

namespace EngineCatalog

/-- A span of time, in nanoseconds. -/
structure Span where
  /-- the length in nanoseconds -/
  nanos : Nat
  deriving DecidableEq, Repr

namespace Span

/-- Nanoseconds in a second. -/
def nanosPerSecond : Nat := 1000000000

/-- Nanoseconds in a millisecond. -/
def nanosPerMilli : Nat := 1000000

/-- The span of so many seconds. -/
def ofSeconds (seconds : Nat) : Span := ⟨seconds * nanosPerSecond⟩

/-- The span of so many milliseconds. -/
def ofMillis (millis : Nat) : Span := ⟨millis * nanosPerMilli⟩

/-- The whole seconds of a span. -/
def seconds (span : Span) : Nat := span.nanos / nanosPerSecond

/-- The whole milliseconds of a span. -/
def millis (span : Span) : Nat := span.nanos / nanosPerMilli

/-- The whole microseconds of a span. -/
def micros (span : Span) : Nat := span.nanos / 1000

/-- A 64-bit count holds the seconds of the span. -/
def fits (span : Span) : Bool := span.seconds < Nat.pow 2 64

/-- The sum of two spans, if it exists. -/
def add? (a b : Span) : Option Span :=
  let sum : Span := ⟨a.nanos + b.nanos⟩
  if sum.fits then some sum else none

/-- The sixteenth part of a span, rounded down. -/
def sixteenth (span : Span) : Span := ⟨span.nanos / 16⟩

theorem fits_iff {span : Span} :
    span.fits = true ↔ span.nanos < Nat.pow 2 64 * nanosPerSecond := by
  rw [fits, decide_eq_true_iff, seconds, Nat.div_lt_iff_lt_mul (by decide)]

/-- The sum is exact where it exists. -/
theorem add?_eq_some_iff {a b sum : Span} :
    a.add? b = some sum ↔ sum = ⟨a.nanos + b.nanos⟩ ∧ sum.fits = true := by
  rw [add?]
  by_cases hfits : (Span.mk (a.nanos + b.nanos)).fits = true
  · rw [if_pos hfits]
    constructor
    · rintro ⟨⟩
      exact ⟨rfl, hfits⟩
    · rintro ⟨rfl, -⟩
      rfl
  · rw [if_neg hfits]
    refine ⟨nofun, ?_⟩
    rintro ⟨rfl, hsum⟩
    exact absurd hsum hfits

/-! ## Text -/

/-- The digits after the point of `part` out of `whole`, a power of ten, without trailing zeros. -/
def fractionDigits (part whole : Nat) : List Char :=
  let digits := (Nat.toDigits 10 (whole + part)).drop 1
  (digits.reverse.dropWhile (· = '0')).reverse

/-- A number of units with the fraction of a unit that is left. -/
def inUnit (nanos unit : Nat) (name : String) : String :=
  let fraction := fractionDigits (nanos % unit) unit
  let point := if fraction.isEmpty then [] else '.' :: fraction
  String.ofList (Nat.toDigits 10 (nanos / unit) ++ point) ++ name

/-- The form of a span in messages. -/
def text (span : Span) : String :=
  if nanosPerSecond ≤ span.nanos then inUnit span.nanos nanosPerSecond "s"
  else if nanosPerMilli ≤ span.nanos then inUnit span.nanos nanosPerMilli "ms"
  else if 1000 ≤ span.nanos then inUnit span.nanos 1000 "µs"
  else inUnit span.nanos 1 "ns"

/-- The form of a span as the waiting time of a blocking query. -/
def waitText (span : Span) : String :=
  if span.millis % 1000 = 0 then s!"{span.seconds}s" else s!"{span.millis}ms"

end Span

end EngineCatalog
