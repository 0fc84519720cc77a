import ParticleLedger.Json.Parser
import Std.Data.ExtTreeMap

/-!
# Formats: values of a type as JSON

A format says how values of a type are written as JSON and read back. Reading is strict about types
and ranges: a number with a fraction or an exponent is no count, and nothing is read from null
except a missing option.

A record is written as an object with its fields in order. It is read from an object in any order,
in which unknown members are passed over and no known one may be repeated, or from an array that
holds the fields in order, from which nothing may be missing but what has a default.
-/

namespace ParticleLedger.Json

open Std (ExtTreeMap)

/-- How values of a type are written and read. Some values cannot be written. -/
structure Format (α : Type) where
  write : α → Option Value
  read : Value → Option α

namespace Value

/-- The count that a number writes. -/
def count? : Value → Option Nat
  | .number literal =>
    if literal.all Char.isDigit then some (Nat.ofDigitChars 10 literal 0) else none
  | _ => none

/-- The text that a string writes. -/
def text? : Value → Option String
  | .string units => StringUnit.text? units
  | _ => none

/-- The items of an array. -/
def items? : Value → Option (List Value)
  | .array items => some items
  | _ => none

/-- The members of an object. -/
def members? : Value → Option (List (List StringUnit × Value))
  | .object members => some members
  | _ => none

/-- The name that the value gives to a member: only a string can be one. -/
def name? : Value → Option (List StringUnit)
  | .string units => some units
  | _ => none

end Value

/-! ## Simple formats -/

namespace Format

variable {α β : Type}

/-- Text as a string. -/
def text : Format String where
  write s := some (.ofText s)
  read := Value.text?

/-- Bytes as counts. -/
def byte : Format UInt8 where
  write b := some (.ofNat b.toNat)
  read v := do
    let n ← v.count?
    if n < UInt8.size then some (UInt8.ofNat n) else none

/-- Words of 32 bits as counts. -/
def word32 : Format UInt32 where
  write w := some (.ofNat w.toNat)
  read v := do
    let n ← v.count?
    if n < UInt32.size then some (UInt32.ofNat n) else none

/-- Words of 64 bits as counts. -/
def word64 : Format UInt64 where
  write w := some (.ofNat w.toNat)
  read v := do
    let n ← v.count?
    if n < UInt64.size then some (UInt64.ofNat n) else none

/-- Lists as arrays. -/
def list (f : Format α) : Format (List α) where
  write as := (as.mapM f.write).map .array
  read v := do (← v.items?).mapM f.read

/-- Options, where null is none. -/
def option (f : Format α) : Format (Option α) where
  write
    | none => some .null
    | some a => f.write a
  read
    | .null => some none
    | v => (f.read v).map some

/-- Maps as objects, with a member for each key. The name of the member is the string that the key
is written as; a key that is written as anything else cannot be written in a map, nor read. -/
def map [Ord α] [Std.TransOrd α] (key : Format α) (f : Format β) : Format (ExtTreeMap α β) where
  write m := do
    let members ← m.toList.mapM fun (k, b) => do
      return (← (← key.write k).name?, ← f.write b)
    return .object members
  read v := do
    let entries ← (← v.members?).mapM fun (name, v) => do
      return (← key.read (.string name), ← f.read v)
    return .ofList entries

/-- Values that are written as those of another type. -/
def via (f : Format β) (view : α → β) (ofView? : β → Option α) : Format α where
  write a := f.write (view a)
  read v := (f.read v).bind ofView?

end Format

/-! ## Records -/

/-- The fields found in a value that is read as a record. -/
structure Fields where
  /-- The value is an array, so a field is missing only if all after it are. -/
  positional : Bool
  found : List (String × Value)

/-- Finds the named fields of a value. -/
def Value.fields? (names : List String) : Value → Option Fields
  | .array items => if items.length ≤ names.length then some ⟨true, names.zip items⟩ else none
  | .object members => do
    let named ← members.mapM fun (name, v) => (StringUnit.text? name).map (·, v)
    -- The strings in members that are passed over are read as text, but may hold half a pair.
    if named.all (fun (name, v) => names.contains name || v.isTidy)
        && names.all (fun name => (named.filter (·.1 = name)).length ≤ 1) then
      some ⟨false, named⟩
    else none
  | _ => none

namespace Fields

variable {α : Type}

/-- Reads a field that has to be there. -/
def required (fs : Fields) (name : String) (f : Format α) : Option α :=
  (fs.found.lookup name).bind f.read

/-- Reads a field that may be missing, in which case it has a default. -/
def defaulted (fs : Fields) (name : String) (f : Format α) (default : α) : Option α :=
  match fs.found.lookup name with
  | some v => f.read v
  | none => some default

/-- Reads a field that may be null, and in an object may be missing. -/
def optional (fs : Fields) (name : String) (f : Format α) : Option (Option α) :=
  match fs.found.lookup name with
  | some v => (Format.option f).read v
  | none => if fs.positional then none else some none

end Fields

/-! ## Texts -/

namespace Format

variable {α : Type}

/-- The text of a value, if it can be written. -/
def render? (f : Format α) (a : α) : Option String :=
  (f.write a).map Value.render

/-- The value that a text writes. -/
def parse? (f : Format α) (text : String) : Option α :=
  (Json.parse? text).bind f.read

end Format

end ParticleLedger.Json
