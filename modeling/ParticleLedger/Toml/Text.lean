import ParticleLedger.Bytes

/-!
# TOML strings and keys

Strings are written between quotes, with escapes between double quotes and without between single
ones, and on several lines between three of either. A line break is one character whether or not a
carriage return comes before it.
-/

namespace ParticleLedger.Toml

/-! ## Characters -/

/-- Whether a character is a blank. -/
def isBlank (c : Char) : Bool :=
  c = ' ' || c = '\t'

/-- What is left after blanks. -/
def skipBlanks (cs : List Char) : List Char :=
  cs.dropWhile isBlank

/-- What is left after a line break. -/
def newline? : List Char → Option (List Char)
  | '\n' :: rest => some rest
  | '\r' :: '\n' :: rest => some rest
  | _ => none

/-- Whether a character may stand in a comment or a string: no control character but the tab. -/
def isPlain (c : Char) : Bool :=
  c = '\t' || (0x20 ≤ c.toNat && c.toNat ≠ 0x7F)

/-- Whether a character may stand in a key without quotes. -/
def isBare (c : Char) : Bool :=
  c.isAlphanum || c = '-' || c = '_'

/-! ## Escapes -/

/-- The character whose code point is written by some hexadecimal digits. -/
def charOfHex? (digits : List Char) : Option Char := do
  let values ← digits.mapM Bytes.hexValue?
  let code := values.foldl (fun n v => n * 16 + v) 0
  if code.isValidChar then some (Char.ofNat code) else none

/-- The character that an escape stands for, and the number of characters after the backslash that
write it. -/
def escape? : List Char → Option (Char × Nat)
  | 'b' :: _ => some ('\x08', 1)
  | 't' :: _ => some ('\t', 1)
  | 'n' :: _ => some ('\n', 1)
  | 'f' :: _ => some ('\x0c', 1)
  | 'r' :: _ => some ('\r', 1)
  | '"' :: _ => some ('"', 1)
  | '\\' :: _ => some ('\\', 1)
  | 'u' :: rest => if rest.length < 4 then none else (charOfHex? (rest.take 4)).map (·, 5)
  | 'U' :: rest => if rest.length < 8 then none else (charOfHex? (rest.take 8)).map (·, 9)
  | _ => none

/-! ## Strings -/

/-- Puts a character before what was read. -/
def consChar (c : Char) (read : Option (List Char × List Char)) : Option (List Char × List Char) :=
  read.map fun (cs, rest) => (c :: cs, rest)

/-- Reads a string between double quotes, after the first. -/
def basicBody (cs : List Char) : Option (List Char × List Char) :=
  match cs with
  | [] => none
  | '"' :: rest => some ([], rest)
  | '\\' :: rest =>
    match escape? rest with
    | some (c, used) => consChar c (basicBody (rest.drop used))
    | none => none
  | c :: rest => if isPlain c then consChar c (basicBody rest) else none
  termination_by cs.length
  decreasing_by all_goals simp only [List.length_cons, List.length_drop]; omega

/-- Reads a string between single quotes, after the first. -/
def literalBody : List Char → Option (List Char × List Char)
  | [] => none
  | '\'' :: rest => some ([], rest)
  | c :: rest => if isPlain c then consChar c (literalBody rest) else none

/-- Whether only blanks stand before the end of the line. -/
def lineEnds (cs : List Char) : Bool :=
  (newline? (skipBlanks cs)).isSome

/-- Whether a character is a blank or breaks the line. -/
def isBlankOrBreak (c : Char) : Bool :=
  isBlank c || c = '\n'

/-- Reads a string between three double quotes, after the first three and the line break that may
follow them. While `folding`, after a backslash at the end of a line, blanks and line breaks are
passed over. Up to two quotes may stand before the closing three. -/
def multiBasicBody (folding : Bool) (cs : List Char) : Option (List Char × List Char) :=
  match cs with
  | [] => none
  | '"' :: '"' :: '"' :: '"' :: '"' :: rest => some (['"', '"'], rest)
  | '"' :: '"' :: '"' :: '"' :: rest => some (['"'], rest)
  | '"' :: '"' :: '"' :: rest => some ([], rest)
  | '\r' :: '\n' :: rest =>
    if folding then multiBasicBody true rest else consChar '\n' (multiBasicBody false rest)
  | '\\' :: rest =>
    match escape? rest with
    | some (c, used) => consChar c (multiBasicBody false (rest.drop used))
    -- A backslash with only blanks after it on its line joins the lines.
    | none => if lineEnds rest then multiBasicBody true rest else none
  | c :: rest =>
    if folding && isBlankOrBreak c then multiBasicBody true rest
    else if isPlain c || c = '\n' then consChar c (multiBasicBody false rest)
    else none
  termination_by cs.length
  decreasing_by all_goals simp only [List.length_cons, List.length_drop]; omega

/-- Reads a string between three single quotes, after the first three and the line break that may
follow them. -/
def multiLiteralBody : List Char → Option (List Char × List Char)
  | [] => none
  | '\'' :: '\'' :: '\'' :: '\'' :: '\'' :: rest => some (['\'', '\''], rest)
  | '\'' :: '\'' :: '\'' :: '\'' :: rest => some (['\''], rest)
  | '\'' :: '\'' :: '\'' :: rest => some ([], rest)
  | '\r' :: '\n' :: rest => consChar '\n' (multiLiteralBody rest)
  | c :: rest => if isPlain c || c = '\n' then consChar c (multiLiteralBody rest) else none

/-- What is left after a line break, if there is one. -/
def skipNewline (cs : List Char) : List Char :=
  (newline? cs).getD cs

/-- Reads a string of any form. -/
def string? (cs : List Char) : Option (String × List Char) :=
  let read := match cs with
    | '"' :: '"' :: '"' :: rest => multiBasicBody false (skipNewline rest)
    | '"' :: rest => basicBody rest
    | '\'' :: '\'' :: '\'' :: rest => multiLiteralBody (skipNewline rest)
    | '\'' :: rest => literalBody rest
    | _ => none
  read.map fun (s, rest) => (String.ofList s, rest)

/-! ## Keys -/

/-- Reads one part of a key: bare, or a string on one line. -/
def keyPart? : List Char → Option (String × List Char)
  | '"' :: rest => (basicBody rest).map fun (s, rest) => (String.ofList s, rest)
  | '\'' :: rest => (literalBody rest).map fun (s, rest) => (String.ofList s, rest)
  | cs =>
    match cs.span isBare with
    | ([], _) => none
    | (name, rest) => some (String.ofList name, rest)

/-- Reads the parts of a key, of which there are at most `fuel`, with dots between them and blanks
around them. -/
def keyParts? : (fuel : Nat) → List Char → Option (List String × List Char)
  | 0, _ => none
  | fuel + 1, cs => do
    let (part, rest) ← keyPart? (skipBlanks cs)
    match skipBlanks rest with
    | '.' :: rest =>
      let (parts, rest) ← keyParts? fuel rest
      return (part :: parts, rest)
    | rest => return ([part], rest)

end ParticleLedger.Toml
