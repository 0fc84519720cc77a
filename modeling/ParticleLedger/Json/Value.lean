import ParticleLedger.Bytes

/-!
# JSON values

A value is kept as it was written, as far as readers may see a difference: a number is its literal,
and a string is a list of units, each a character that stands for itself or an escaped unit of
sixteen bits. What a string means depends on who reads it. As text, escaped surrogates must come in
pairs and control characters must be escaped; as bytes, everything is allowed.

Main statement: `StringUnit.text?_ofText` (the units of a text read back as that text).
-/

namespace ParticleLedger.Json

/-! ## Strings -/

/-- One unit of a string. -/
inductive StringUnit where
  /-- A character that stands for itself. -/
  | char (c : Char)
  /-- An escaped unit of sixteen bits. -/
  | escaped (unit : UInt16)
  deriving DecidableEq

namespace StringUnit

/-- The first half of a pair of surrogates. -/
def isHighSurrogate (u : UInt16) : Bool :=
  0xD800 ≤ u && u ≤ 0xDBFF

/-- The second half of a pair of surrogates. -/
def isLowSurrogate (u : UInt16) : Bool :=
  0xDC00 ≤ u && u ≤ 0xDFFF

/-- The code point of a pair of surrogates. -/
def pairCode (high low : UInt16) : Nat :=
  (high.toNat - 0xD800) * 0x400 + (low.toNat - 0xDC00) + 0x10000

/-- The code points of a string; the half of a pair that stands alone counts as one. -/
def codes : List StringUnit → List Nat
  | [] => []
  | .char c :: rest => c.toNat :: codes rest
  | .escaped high :: .escaped low :: rest =>
    -- A second unit that completes no pair may begin one.
    if isHighSurrogate high && isLowSurrogate low then pairCode high low :: codes rest
    else high.toNat :: codes (.escaped low :: rest)
  | .escaped u :: rest => u.toNat :: codes rest

/-- Whether the unit may stand in a text: control characters have to be escaped. -/
def isTidy : StringUnit → Bool
  | .char c => 0x20 ≤ c.toNat
  | .escaped _ => true

/-- The character of a code point that is not half of a pair. -/
def charOf? (code : Nat) : Option Char :=
  if code.isValidChar then some (Char.ofNat code) else none

/-- The text of a string, if it is one. -/
def text? (units : List StringUnit) : Option String :=
  if units.all isTidy then ((codes units).mapM charOf?).map String.ofList else none

/-- The bytes of a code point in UTF-8, which here may be half of a pair. -/
def codeBytes (code : Nat) : Bytes :=
  if code < 0x80 then [UInt8.ofNat code]
  else if code < 0x800 then [UInt8.ofNat (0xC0 + code / 0x40), UInt8.ofNat (0x80 + code % 0x40)]
  else if code < 0x10000 then
    [UInt8.ofNat (0xE0 + code / 0x1000), UInt8.ofNat (0x80 + code / 0x40 % 0x40),
      UInt8.ofNat (0x80 + code % 0x40)]
  else
    [UInt8.ofNat (0xF0 + code / 0x40000), UInt8.ofNat (0x80 + code / 0x1000 % 0x40),
      UInt8.ofNat (0x80 + code / 0x40 % 0x40), UInt8.ofNat (0x80 + code % 0x40)]

/-- The bytes of a string. -/
def bytes (units : List StringUnit) : Bytes :=
  (codes units).flatMap codeBytes

/-- The unit that is written for a character of a text: quotes, backslashes and control characters
are escaped. -/
def ofChar (c : Char) : StringUnit :=
  if c = '"' ∨ c = '\\' ∨ c.toNat < 0x20 then .escaped (UInt16.ofNat c.toNat) else .char c

/-- The units that are written for a text. -/
def ofText (s : String) : List StringUnit :=
  s.toList.map ofChar

theorem charOf?_toNat (c : Char) : charOf? c.toNat = some c := by
  have h : c.toNat.isValidChar := c.valid
  simp [charOf?, h]

theorem isTidy_ofChar (c : Char) : (ofChar c).isTidy = true := by
  unfold ofChar
  split
  · rfl
  · simp_all [isTidy]

theorem codes_map_ofChar (cs : List Char) : codes (cs.map ofChar) = cs.map Char.toNat := by
  have small : ∀ c : Char, (c = '"' ∨ c = '\\' ∨ c.toNat < 0x20) →
      (UInt16.ofNat c.toNat).toNat = c.toNat ∧ isHighSurrogate (UInt16.ofNat c.toNat) = false := by
    intro c hc
    have hlt : c.toNat < 128 := by
      rcases hc with rfl | rfl | h
      · decide
      · decide
      · omega
    have hn : (UInt16.ofNat c.toNat).toNat = c.toNat := by
      rw [UInt16.toNat_ofNat']
      exact Nat.mod_eq_of_lt (by omega)
    refine ⟨hn, ?_⟩
    simp only [isHighSurrogate, Bool.and_eq_false_iff, decide_eq_false_iff_not]
    left
    rw [UInt16.le_iff_toNat_le, hn]
    change ¬ 55296 ≤ c.toNat
    omega
  induction cs with
  | nil => rfl
  | cons c cs ih =>
    by_cases hc : c = '"' ∨ c = '\\' ∨ c.toNat < 0x20
    · obtain ⟨hn, hs⟩ := small c hc
      rw [List.map_cons, List.map_cons, ← ih, ofChar, if_pos hc]
      cases hrest : cs.map ofChar with
      | nil => simp [codes, hn]
      | cons u us =>
        cases u with
        | char d => simp [codes, hn]
        | escaped low => simp [codes, hs, hn]
    · rw [List.map_cons, List.map_cons, ← ih, ofChar, if_neg hc, codes]

/-- The units of a text read back as that text. -/
theorem text?_ofText (s : String) : text? (ofText s) = some s := by
  have htidy : (ofText s).all isTidy = true := by
    simp [ofText, isTidy_ofChar]
  have hcodes : ((s.toList.map Char.toNat).mapM charOf?) = some s.toList := by
    induction s.toList with
    | nil => rfl
    | cons c cs ih => simp [charOf?_toNat, ih]
  rw [text?, if_pos htidy, ofText, codes_map_ofChar, hcodes]
  simp

end StringUnit

/-! ## Values -/

/-- A JSON value. -/
inductive Value where
  | null
  | bool (b : Bool)
  /-- A number, by its literal. -/
  | number (literal : List Char)
  | string (units : List StringUnit)
  | array (items : List Value)
  | object (members : List (List StringUnit × Value))

namespace Value

/-- The string of a text. -/
def ofText (s : String) : Value :=
  .string (StringUnit.ofText s)

/-- The number of a count. -/
def ofNat (n : Nat) : Value :=
  .number (Nat.toDigits 10 n)

/-- The object with these members. -/
def record (members : List (String × Value)) : Value :=
  .object (members.map fun (name, v) => (StringUnit.ofText name, v))

/-- Whether control characters are escaped in all strings and names of the value, at every level. -/
def isTidy : Value → Bool
  | .string units => units.all StringUnit.isTidy
  | .array items => tidyItems items
  | .object members => tidyMembers members
  | _ => true
where
  /-- Whether they are in all items. -/
  tidyItems : List Value → Bool
    | [] => true
    | v :: rest => v.isTidy && tidyItems rest
  /-- Whether they are in all members. -/
  tidyMembers : List (List StringUnit × Value) → Bool
    | [] => true
    | (name, v) :: rest => name.all StringUnit.isTidy && v.isTidy && tidyMembers rest

end Value

end ParticleLedger.Json
