import ParticleLedger.Duration

/-!
# Durations as text

A length of time is shown in the greatest of nanoseconds, microseconds, milliseconds and seconds of
which it has at least one, with as many decimals as it needs.
-/

namespace ParticleLedger.Text

/-- The decimals of a part of a unit, which is a power of ten, without zeros at the end. -/
def decimals (unit part : Nat) : String :=
  let digits := (toString (unit + part)).toList.drop 1
  String.ofList (digits.reverse.dropWhile (· = '0')).reverse

/-- A number of nanoseconds in a unit of so many. -/
def inUnit (unit : Nat) (symbol : String) (nanos : Nat) : String :=
  let part := decimals unit (nanos % unit)
  toString (nanos / unit) ++ (if part.isEmpty then "" else "." ++ part) ++ symbol

/-- The text of a duration. -/
def duration (d : Duration) : String :=
  if d.nanos < 1000 then inUnit 1 "ns" d.nanos
  else if d.nanos < 1000000 then inUnit 1000 "µs" d.nanos
  else if d.nanos < 1000000000 then inUnit 1000000 "ms" d.nanos
  else inUnit 1000000000 "s" d.nanos

end ParticleLedger.Text
