import ParticleLedger.Toml.Scalar
import ParticleLedger.Toml.Text

/-!
# Reading TOML documents

A document is a sequence of lines: headers, which say to which table the following entries belong,
and entries. Everything must end with its line, but for comments and blanks, and for the brackets
and quotes that may go on over several lines.

Brackets and keys may be nested up to a limit, `nestingLimit`.
-/

namespace ParticleLedger.Toml

/-- Less deep than this brackets may be nested, and fewer parts than this a key may have. -/
def nestingLimit : Nat := 80

/-- Reads a key. -/
def key? (cs : List Char) : Option (List String × List Char) :=
  keyParts? (nestingLimit - 1) cs

/-- What is left after blanks, comments and line breaks. -/
def skipGap (inComment : Bool) : List Char → Option (List Char)
  | [] => some []
  | '\r' :: '\n' :: rest => skipGap false rest
  | '\n' :: rest => skipGap false rest
  | c :: rest =>
    if inComment then if isPlain c then skipGap true rest else none
    else if isBlank c then skipGap false rest
    else if c = '#' then skipGap true rest
    else some (c :: rest)

/-- What is left of the text after the rest of a line, which holds nothing but blanks and
a comment. -/
def endLine? (cs : List Char) : Option (List Char) :=
  let cs := match skipBlanks cs with
    | '#' :: rest => rest.dropWhile isPlain
    | cs => cs
  match cs with
  | [] => some []
  | cs => newline? cs

/-! ## Values -/

mutual

/-- Reads a value; `depth` brackets more may be opened in it. -/
def value? : (fuel depth : Nat) → List Char → Option (Node × List Char)
  | 0, _, _ => none
  | fuel + 1, depth, cs =>
    match cs with
    | '[' :: rest =>
      match depth with
      | 0 => none
      | depth + 1 => do
        let rest ← skipGap false rest
        let (items, rest) ← items? fuel depth rest
        return (.array items, rest)
    | '\x7b' :: rest =>
      match depth with
      | 0 => none
      | depth + 1 => do
        let (entries, rest) ← match skipBlanks rest with
          | '\x7d' :: rest => some ([], rest)
          | rest => entries? fuel depth [] rest
        return (.table .inlined entries, rest)
    | '"' :: _ | '\'' :: _ => (string? cs).map fun (s, rest) => (.text s, rest)
    | cs => scalar? cs

/-- Reads the items of an array up to the closing bracket; a comma may follow the last. -/
def items? : (fuel depth : Nat) → List Char → Option (List Node × List Char)
  | 0, _, _ => none
  | fuel + 1, depth, cs =>
    match cs with
    | ']' :: rest => some ([], rest)
    | cs => do
      let (item, rest) ← value? fuel depth cs
      match ← skipGap false rest with
      | ']' :: rest => return ([item], rest)
      -- After the comma the array may end, so the closing bracket is tried again.
      | ',' :: rest =>
        let (items, rest) ← items? fuel depth (← skipGap false rest)
        return (item :: items, rest)
      | _ => none

/-- Reads the entries of an inline table up to the closing brace, after those read already. -/
def entries? : (fuel depth : Nat) → Entries → List Char → Option (Entries × List Char)
  | 0, _, _, _ => none
  | fuel + 1, depth, entries, cs => do
    let (path, n, rest) ← entry? fuel depth cs
    let (_, entries) ← addDotted path.dropLast (path.getLast?.getD "") n .inlined entries
    match rest with
    | '\x7d' :: rest => return (entries, rest)
    | ',' :: rest => entries? fuel depth entries rest
    | _ => none

/-- Reads an entry: a key, its value, and blanks around both. -/
def entry? : (fuel depth : Nat) → List Char → Option (List String × Node × List Char)
  | 0, _, _ => none
  | fuel + 1, depth, cs => do
    let (path, rest) ← key? cs
    match rest with
    | '=' :: rest =>
      let (n, rest) ← value? fuel depth (skipBlanks rest)
      return (path, n, skipBlanks rest)
    | _ => none

end

/-! ## Documents -/

/-- A document as far as it has been read. -/
structure Draft where
  entries : Entries
  /-- The path of the table to which entries belong. -/
  current : List String

namespace Draft

/-- Acts on the document. -/
def act (d : Draft) (action : TableAction) : Option Draft :=
  (action .header d.entries).map fun (_, entries) => { d with entries }

/-- Opens the table that a header names. -/
def openHeader (d : Draft) (element : Bool) (path : List String) : Option Draft := do
  let key := path.getLast?.getD ""
  let d ← d.act (actAt .ofHeader (if element then openElement key else openTable key) path.dropLast)
  return { d with current := path }

/-- Adds an entry to the table to which entries belong. -/
def addEntry (d : Draft) (path : List String) (n : Node) : Option Draft :=
  d.act (actAt .ofHeader (addDotted path.dropLast (path.getLast?.getD "") n) d.current)

end Draft

/-- Reads a header after its opening brackets. -/
def header? (closing : List Char) (cs : List Char) : Option (List String × List Char) := do
  let (path, rest) ← key? cs
  if closing.isPrefixOf rest then some (path, rest.drop closing.length) else none

/-- Reads one line and what belongs to it. -/
def line? (fuel : Nat) (d : Draft) (cs : List Char) : Option (Draft × List Char) :=
  match skipBlanks cs with
  | '[' :: '[' :: rest => do
    let (path, rest) ← header? [']', ']'] rest
    return (← d.openHeader true path, ← endLine? rest)
  | '[' :: rest => do
    let (path, rest) ← header? [']'] rest
    return (← d.openHeader false path, ← endLine? rest)
  | [] => some (d, [])
  | c :: rest =>
    if c = '#' || c = '\n' || c = '\r' then (endLine? (c :: rest)).map (d, ·)
    else do
      let (path, n, rest) ← entry? fuel (nestingLimit - 1) (c :: rest)
      return (← d.addEntry path n, ← endLine? rest)

/-- Reads lines to the end of the text. Every line takes a character at least, so fuel for as many
lines as there are characters is enough. -/
def lines? : (fuel : Nat) → Draft → List Char → Option Draft
  | _, d, [] => some d
  | 0, _, _ :: _ => none
  | fuel + 1, d, cs =>
    match line? (2 * cs.length + 2) d cs with
    | some (d, rest) => lines? fuel d rest
    | none => none

/-- The document that a text writes. A mark of the byte order at its beginning is passed over. -/
def parse? (text : String) : Option Node :=
  let cs := match text.toList with
    | '\uFEFF' :: rest => rest
    | cs => cs
  (lines? (cs.length + 1) ⟨[], []⟩ cs).map fun d => .table .header d.entries

end ParticleLedger.Toml
