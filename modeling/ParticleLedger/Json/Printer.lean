import ParticleLedger.Json.Value

/-!
# Writing JSON

Values are written without blanks. A unit that has to be escaped is written with its letter if it
has one, and by four hexadecimal digits otherwise.
-/

namespace ParticleLedger.Json

/-- The units that have a letter of their own after the backslash. -/
def escapeLetters : List (Char × UInt16) :=
  [('"', 0x22), ('\\', 0x5C), ('b', 0x08), ('f', 0x0C), ('n', 0x0A), ('r', 0x0D), ('t', 0x09)]

/-- The four hexadecimal digits of a unit. -/
def unitDigits (u : UInt16) : List Char :=
  [Bytes.hexDigit (u.toNat / 4096), Bytes.hexDigit (u.toNat / 256 % 16),
    Bytes.hexDigit (u.toNat / 16 % 16), Bytes.hexDigit (u.toNat % 16)]

/-- How one unit of a string is written. -/
def StringUnit.print : StringUnit → List Char
  | .char c => [c]
  | .escaped u =>
    match escapeLetters.find? (·.2 = u) with
    | some (letter, _) => ['\\', letter]
    | none => '\\' :: 'u' :: unitDigits u

/-- How a string is written, with its quotes. -/
def printString (units : List StringUnit) : List Char :=
  '"' :: units.flatMap StringUnit.print ++ ['"']

namespace Value

/-- How a value is written. -/
def print : Value → List Char
  | .null => ['n', 'u', 'l', 'l']
  | .bool true => ['t', 'r', 'u', 'e']
  | .bool false => ['f', 'a', 'l', 's', 'e']
  | .number literal => literal
  | .string units => printString units
  | .array [] => ['[', ']']
  | .array (v :: rest) => '[' :: v.print ++ printItems rest
  | .object [] => ['\x7b', '\x7d']
  | .object ((name, v) :: rest) => '\x7b' :: printString name ++ ':' :: v.print ++ printMembers rest
where
  /-- How the items after the first are written, up to the closing bracket. -/
  printItems : List Value → List Char
    | [] => [']']
    | v :: rest => ',' :: v.print ++ printItems rest
  /-- How the members after the first are written, up to the closing brace. -/
  printMembers : List (List StringUnit × Value) → List Char
    | [] => ['\x7d']
    | (name, v) :: rest => ',' :: printString name ++ ':' :: v.print ++ printMembers rest

/-- The text of a value. -/
def render (v : Value) : String :=
  String.ofList v.print

end Value

end ParticleLedger.Json
