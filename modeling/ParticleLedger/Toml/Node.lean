/-!
# TOML documents as trees

A node is a value or a table. Tables come into being in several ways, and the way decides how they
may be added to: by a header, by being on the path of a header, by a dotted key, or written in one
piece as an inline table, which is closed for ever. Each way of adding is one function; it answers
with nothing when the document breaks a rule.
-/

namespace ParticleLedger.Toml

/-- How a table came into being. -/
inductive Origin where
  /-- It has a header of its own, or is the document. -/
  | header
  /-- It is on the path of a header, and has none of its own so far. -/
  | path
  /-- It is named by a dotted key. -/
  | dotted
  /-- It is written in one piece. -/
  | inlined
  deriving DecidableEq

/-- A value or a table. -/
inductive Node where
  | text (s : String)
  | integer (n : Int)
  /-- A number with a fraction or an exponent, infinity or not a number. -/
  | float
  | boolean (b : Bool)
  /-- A date, a time or both. -/
  | dateTime
  | array (items : List Node)
  | table (origin : Origin) (entries : List (String × Node))
  /-- The tables of an array of tables, in order. -/
  | tables (elements : List Node)

/-- The entries of a table. -/
abbrev Entries := List (String × Node)

namespace Entries

/-- The entries with the one of a key replaced, or added at the end. -/
def put (key : String) (n : Node) : Entries → Entries
  | [] => [(key, n)]
  | (k, m) :: rest => if k = key then (k, n) :: rest else (k, m) :: put key n rest

end Entries

/-- What happens on the way to a table. -/
inductive Passage where
  /-- A header names the way: any table may be passed. -/
  | ofHeader
  /-- A dotted key names the way: tables that have a header may not be passed. -/
  | ofKey
  deriving DecidableEq

/-- The origin of a table that is made on the way. -/
def Passage.origin : Passage → Origin
  | .ofHeader => .path
  | .ofKey => .dotted

/-- Whether a table that is there may be passed. -/
def Passage.allows : Passage → Origin → Bool
  | _, .inlined => false
  | .ofKey, .header => false
  | _, _ => true

/-- An action on a table: its origin and entries afterwards. -/
abbrev TableAction := Origin → Entries → Option (Origin × Entries)

/-- The table to which the next part of a path leads, given what is there, and how it is put back. A
table that is missing is made, and of an array of tables the last one is passed. -/
def pass? (passage : Passage) :
    Option Node → Option ((Origin × Entries) × (Origin × Entries → Node))
  | none => some ((passage.origin, []), fun t => .table t.1 t.2)
  | some (.table o es) =>
    if passage.allows o then some ((o, es), fun t => .table t.1 t.2) else none
  | some (.tables elements) =>
    match elements.getLast? with
    | some (.table o es) => some ((o, es), fun t => .tables (elements.dropLast ++ [.table t.1 t.2]))
    | _ => none
  | some _ => none

/-- Acts on the table at the end of a path. -/
def actAt (passage : Passage) (act : TableAction) : (path : List String) → TableAction
  | [], origin, entries => act origin entries
  | key :: path, origin, entries => do
    let (inner, putBack) ← pass? passage (entries.lookup key)
    let acted ← actAt passage act path inner.1 inner.2
    -- What happens further in does not change how this table came into being.
    return (origin, Entries.put key (putBack acted) entries)

/-- Adds an entry to a table. A table that a dotted key leads to must have been made by one. -/
def addEntry (throughDots : Bool) (key : String) (n : Node) : TableAction := fun origin entries =>
  if (throughDots && origin ≠ .dotted) || (entries.lookup key).isSome then none
  else some (origin, entries ++ [(key, n)])

/-- Opens the table of a header. It may be there already only if it was on the path of another. -/
def openTable (key : String) : TableAction := fun origin entries =>
  match entries.lookup key with
  | none => some (origin, Entries.put key (.table .header []) entries)
  | some (.table .path es) => some (origin, Entries.put key (.table .header es) entries)
  | some _ => none

/-- Opens the next table of an array of tables. -/
def openElement (key : String) : TableAction := fun origin entries =>
  match entries.lookup key with
  | none => some (origin, Entries.put key (.tables [.table .header []]) entries)
  | some (.tables elements) =>
    some (origin, Entries.put key (.tables (elements ++ [.table .header []])) entries)
  | some _ => none

/-- Adds an entry under a dotted key, whose last part is given apart. -/
def addDotted (path : List String) (key : String) (n : Node) : TableAction :=
  actAt .ofKey (addEntry (!path.isEmpty) key n) path

end ParticleLedger.Toml
