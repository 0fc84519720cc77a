import ParticleLedger.Bytes
import ParticleLedger.Toml.Node

/-!
# TOML numbers, dates and words

A value that is neither quoted nor bracketed is a run of characters up to a blank, a comment or a
separator, and its form says what it is. Only a date may go on after a blank, with a time.
-/

namespace ParticleLedger.Toml

/-! ## Digits -/

/-- The digits of a run in which single underscores may stand between digits. -/
def separated? (isDigit : Char → Bool) : List Char → Option (List Char)
  | [] => none
  | [c] => if isDigit c then some [c] else none
  | c :: '_' :: rest => if isDigit c then (separated? isDigit rest).map (c :: ·) else none
  | c :: rest => if isDigit c then (separated? isDigit rest).map (c :: ·) else none

/-- The number that some digits write in a base. -/
def numberOf (base : Nat) (digits : List Char) : Nat :=
  digits.foldl (fun n c => n * base + (Bytes.hexValue? c).getD 0) 0

/-- A sign, and what is left; no sign counts as plus. -/
def signed : List Char → Bool × List Char
  | '-' :: rest => (true, rest)
  | '+' :: rest => (false, rest)
  | cs => (false, cs)

/-- The digits of a decimal number: no zero stands in front. -/
def decimalDigits? (cs : List Char) : Option (List Char) := do
  let digits ← separated? Char.isDigit cs
  if digits.head? = some '0' && cs.length ≠ 1 then none else some digits

/-! ## Integers -/

/-- An integer, if it fits into 64 bits. -/
def fit? (n : Int) : Option Int :=
  if Int64.minValue.toInt ≤ n ∧ n ≤ Int64.maxValue.toInt then some n else none

/-- Whether a character is a digit of a base up to sixteen. -/
def isDigitOf (base : Nat) (c : Char) : Bool :=
  (Bytes.hexValue? c).any (· < base)

/-- The integer that a run writes, with a prefix for its base if that is not ten. -/
def integer? : List Char → Option Int
  | '0' :: 'x' :: rest => (separated? (isDigitOf 16) rest).bind fun ds => fit? (numberOf 16 ds)
  | '0' :: 'o' :: rest => (separated? (isDigitOf 8) rest).bind fun ds => fit? (numberOf 8 ds)
  | '0' :: 'b' :: rest => (separated? (isDigitOf 2) rest).bind fun ds => fit? (numberOf 2 ds)
  | cs => do
    let (negative, cs) := signed cs
    let n := numberOf 10 (← decimalDigits? cs)
    fit? (if negative then -(n : Int) else n)

/-! ## Floats -/

/-- Whether `m * 10 ^ e` is rounded to infinity by a number of double precision. -/
def overflows (m : Nat) (e : Int) : Bool :=
  if m = 0 then false
  else
    -- The number of digits before the point decides all but the closest cases.
    let size : Int := (Nat.toDigits 10 m).length + e
    if size > 310 then true
    else if size < 300 then false
    else
      -- Half way from the greatest double to the power of two above it.
      let limit := 1 <<< 1024 - 1 <<< 970
      if 0 ≤ e then limit ≤ m * Nat.pow 10 e.toNat else limit * Nat.pow 10 (-e).toNat ≤ m

/-- The exponent of a float, from after its letter. -/
def exponent? (cs : List Char) : Option Int := do
  let (negative, cs) := signed cs
  let n := numberOf 10 (← separated? Char.isDigit cs)
  return if negative then -(n : Int) else n

/-- Whether a run writes a float that is not too great. -/
def isFloat (run : List Char) : Bool :=
  let (negative, cs) := signed run
  if cs = ['i', 'n', 'f'] || cs = ['n', 'a', 'n'] then true
  else
    let (mantissa, exponent) := cs.span fun c => c ≠ 'e' && c ≠ 'E'
    let (whole, fraction) := mantissa.span (· ≠ '.')
    if exponent.isEmpty && fraction.isEmpty then false
    else
      let digits := do
        let whole ← decimalDigits? whole
        let fraction ←
          if fraction.isEmpty then some [] else separated? Char.isDigit (fraction.drop 1)
        let exponent ← if exponent.isEmpty then some 0 else exponent? (exponent.drop 1)
        return (numberOf 10 (whole ++ fraction), exponent - fraction.length)
      match digits with
      | none => false
      | some (m, e) => negative || !overflows m e

/-! ## Dates and times -/

/-- The number that a run of exactly `n` digits writes. -/
def fixedDigits? (n : Nat) (cs : List Char) : Option Nat :=
  if cs.length = n && cs.all Char.isDigit then some (numberOf 10 cs) else none

/-- The number of days in a month. -/
def daysInMonth (year month : Nat) : Nat :=
  if month = 2 then
    if year % 4 = 0 && (year % 100 ≠ 0 || year % 400 = 0) then 29 else 28
  else if month = 4 || month = 6 || month = 9 || month = 11 then 30
  else 31

/-- Whether a run is a date. -/
def isDate (cs : List Char) : Bool :=
  let parts := do
    let year ← fixedDigits? 4 (cs.take 4)
    let month ← fixedDigits? 2 ((cs.drop 5).take 2)
    let day ← fixedDigits? 2 (cs.drop 8)
    return (year, month, day)
  match parts with
  | none => false
  | some (year, month, day) =>
    cs[4]? = some '-' && cs[7]? = some '-' && 1 ≤ month && month ≤ 12 && 1 ≤ day
      && day ≤ daysInMonth year month

/-- Whether a run is an hour and a minute. -/
def isHourMinute (cs : List Char) : Bool :=
  cs.length = 5 && cs[2]? = some ':' && (fixedDigits? 2 (cs.take 2)).any (· ≤ 23)
    && (fixedDigits? 2 (cs.drop 3)).any (· ≤ 59)

/-- Whether a run is a time of day; its seconds may have decimals. -/
def isTime (cs : List Char) : Bool :=
  isHourMinute (cs.take 5) && cs[5]? = some ':' &&
    (fixedDigits? 2 ((cs.drop 6).take 2)).any (· ≤ 60)
    && match cs.drop 8 with
      | [] => true
      | '.' :: decimals => !decimals.isEmpty && decimals.all Char.isDigit
      | _ => false

/-- Whether a run is a distance from universal time. -/
def isOffset : List Char → Bool
  | ['Z'] | ['z'] => true
  | '+' :: rest | '-' :: rest => isHourMinute rest
  | _ => false

/-- Whether a run is a time of day that may be followed by an offset. -/
def isTimeWithOffset (cs : List Char) : Bool :=
  let (time, offset) := cs.span fun c => c.isDigit || c = ':' || c = '.'
  isTime time && (offset.isEmpty || isOffset offset)

/-- Whether a run is a date, a time, or a date with a time. -/
def isDateTime (cs : List Char) : Bool :=
  isTime cs || isDate cs
    || isDate (cs.take 10) && (cs[10]? = some 'T' || cs[10]? = some 't')
      && isTimeWithOffset (cs.drop 11)

/-! ## Runs -/

/-- Whether a character ends a run. -/
def endsRun (c : Char) : Bool :=
  c = ' ' || c = '\t' || c = '\n' || c = '\r' || c = '#' || c = ',' || c = ']' || c = '\x7d'

/-- What a run writes. -/
def ofRun? (run : List Char) : Option Node :=
  if run = ['t', 'r', 'u', 'e'] then some (.boolean true)
  else if run = ['f', 'a', 'l', 's', 'e'] then some (.boolean false)
  else if isDateTime run then some .dateTime
  else if isFloat run then some .float
  else (integer? run).map .integer

/-- Reads a value that is neither quoted nor bracketed. -/
def scalar? (cs : List Char) : Option (Node × List Char) :=
  let (run, rest) := cs.span fun c => !endsRun c
  match rest with
  | ' ' :: after =>
    let (time, afterTime) := after.span fun c => !endsRun c
    if isDate run && isTimeWithOffset time then some (.dateTime, afterTime)
    else (ofRun? run).map (·, rest)
  | _ => (ofRun? run).map (·, rest)

end ParticleLedger.Toml
