import ParticleLedger.Json.Printer

/-!
# Reading JSON

The grammar is that of RFC 8259, with one liberty: control characters may stand in strings as they
are. Whether they may depends on what the string is read as, so that is decided later, where its
meaning is known.

Each reader takes the characters from where it stands and answers with what it read and what is
left. Nested values are read with a fuel that the length of the text bounds.
-/

namespace ParticleLedger.Json

/-- A reader: what is read, and what is left. -/
abbrev Reader (α : Type) := List Char → Option (α × List Char)

/-- Whether a character may stand between tokens. -/
def isBlank (c : Char) : Bool :=
  c = ' ' || c = '\n' || c = '\t' || c = '\r'

/-- What is left after blanks. -/
def skipBlanks (cs : List Char) : List Char :=
  cs.dropWhile isBlank

/-- What is left after a given beginning. -/
def expect : (word : List Char) → List Char → Option (List Char)
  | [], cs => some cs
  | w :: word, c :: cs => if w = c then expect word cs else none
  | _ :: _, [] => none

/-! ## Strings -/

/-- The unit with four hexadecimal digits. -/
def unitOfDigits? (a b c d : Char) : Option UInt16 := do
  let a ← Bytes.hexValue? a
  let b ← Bytes.hexValue? b
  let c ← Bytes.hexValue? c
  let d ← Bytes.hexValue? d
  return UInt16.ofNat (a * 4096 + b * 256 + c * 16 + d)

/-- The unit that a letter after a backslash stands for. -/
def unitOfLetter? (letter : Char) : Option UInt16 :=
  if letter = '/' then some 0x2F else escapeLetters.lookup letter

/-- Reads a string after its opening quote. -/
def stringBody : Reader (List StringUnit)
  | [] => none
  | '"' :: rest => some ([], rest)
  | '\\' :: 'u' :: a :: b :: c :: d :: rest =>
    match unitOfDigits? a b c d, stringBody rest with
    | some u, some (units, rest) => some (.escaped u :: units, rest)
    | _, _ => none
  | '\\' :: letter :: rest =>
    match unitOfLetter? letter, stringBody rest with
    | some u, some (units, rest) => some (.escaped u :: units, rest)
    | _, _ => none
  | c :: rest =>
    match stringBody rest with
    | some (units, rest) => some (.char c :: units, rest)
    | none => none

/-! ## Numbers -/

/-- Reads a run of at least one digit. -/
def digits : Reader (List Char) := fun cs =>
  match cs.span Char.isDigit with
  | ([], _) => none
  | run => some run

/-- Reads the part of a number before the point: no zero stands before another digit. -/
def wholePart : Reader (List Char)
  | '0' :: rest => if (rest.head?.any Char.isDigit) then none else some (['0'], rest)
  | cs => digits cs

/-- Reads the fraction of a number, if there is one. -/
def fraction : Reader (List Char)
  | '.' :: rest => (digits rest).map fun (ds, rest) => ('.' :: ds, rest)
  | cs => some ([], cs)

/-- Reads the exponent of a number, if there is one. -/
def exponent : Reader (List Char)
  | e :: rest =>
    if e = 'e' ∨ e = 'E' then
      match rest with
      | s :: signed =>
        if s = '+' ∨ s = '-' then (digits signed).map fun (ds, rest) => (e :: s :: ds, rest)
        else (digits rest).map fun (ds, rest) => (e :: ds, rest)
      | [] => none
    else some ([], e :: rest)
  | [] => some ([], [])

/-- Reads a number without a sign. -/
def unsignedNumber : Reader (List Char) := fun cs => do
  let (whole, cs) ← wholePart cs
  let (frac, cs) ← fraction cs
  let (exp, cs) ← exponent cs
  return (whole ++ frac ++ exp, cs)

/-- Reads a number. -/
def number : Reader (List Char)
  | '-' :: rest => (unsignedNumber rest).map fun (literal, rest) => ('-' :: literal, rest)
  | cs => unsignedNumber cs

/-! ## Values -/

/-- Reads a value of no parts. -/
def scalar : Reader Value
  | '"' :: rest => (stringBody rest).map fun (units, rest) => (.string units, rest)
  | 'n' :: rest => (expect ['u', 'l', 'l'] rest).map (Value.null, ·)
  | 't' :: rest => (expect ['r', 'u', 'e'] rest).map (Value.bool true, ·)
  | 'f' :: rest => (expect ['a', 'l', 's', 'e'] rest).map (Value.bool false, ·)
  | cs => (number cs).map fun (literal, rest) => (.number literal, rest)

/-- Reads the name of a member and the colon. -/
def memberName : Reader (List StringUnit) := fun cs =>
  match skipBlanks cs with
  | '"' :: rest =>
    match stringBody rest with
    | some (name, rest) =>
      match skipBlanks rest with
      | ':' :: rest => some (name, rest)
      | _ => none
    | none => none
  | _ => none

mutual

/-- Reads a value, after blanks. -/
def value : (fuel : Nat) → Reader Value
  | 0, _ => none
  | fuel + 1, cs =>
    match skipBlanks cs with
    -- An empty array or object is told apart here, so that no comma can stand before its end.
    | '[' :: rest =>
      match skipBlanks rest with
      | ']' :: rest => some (.array [], rest)
      | rest => (items fuel rest).map fun (vs, rest) => (.array vs, rest)
    | '\x7b' :: rest =>
      match skipBlanks rest with
      | '\x7d' :: rest => some (.object [], rest)
      | rest => (members fuel rest).map fun (ms, rest) => (.object ms, rest)
    | cs => scalar cs

/-- Reads the items of an array from one of them to the closing bracket. -/
def items : (fuel : Nat) → Reader (List Value)
  | 0, _ => none
  | fuel + 1, cs =>
    match value fuel cs with
    | none => none
    | some (v, rest) =>
      match skipBlanks rest with
      | ',' :: rest => (items fuel rest).map fun (vs, rest) => (v :: vs, rest)
      | ']' :: rest => some ([v], rest)
      | _ => none

/-- Reads the members of an object from one of them to the closing brace. -/
def members : (fuel : Nat) → Reader (List (List StringUnit × Value))
  | 0, _ => none
  | fuel + 1, cs =>
    match memberName cs with
    | none => none
    | some (name, rest) =>
      match value fuel rest with
      | none => none
      | some (v, rest) =>
        match skipBlanks rest with
        | ',' :: rest => (members fuel rest).map fun (ms, rest) => ((name, v) :: ms, rest)
        | '\x7d' :: rest => some ([(name, v)], rest)
        | _ => none

end

/-- Reads a text that is one value with blanks around it. Every level of a value and every item
takes a character at least, so the fuel is enough. -/
def parse? (text : String) : Option Value :=
  let cs := text.toList
  match value (2 * cs.length + 2) cs with
  | some (v, rest) => if (skipBlanks rest).isEmpty then some v else none
  | none => none

end ParticleLedger.Json
