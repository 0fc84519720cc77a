/-!
# Byte strings

Byte strings are lists of bytes. This module fixes the three ways the library turns other data into
bytes or back: fixed-width integers (most or least significant byte first), text (UTF-8) and
hexadecimal digits.

Main statements: `length_bigEndian` (the width is fixed), `ofBigEndian_bigEndian` (an integer reads
back if it fits the width), `utf8_injective` (the bytes of a text determine it) and `ofHex?_toHex`
(hexadecimal text reads back).
-/

namespace ParticleLedger

/-- A string of bytes. -/
abbrev Bytes := List UInt8

namespace Bytes

/-! ## Integers -/

/-- How many numbers there are of `width` base-256 digits. -/
def capacity : (width : Nat) → Nat
  | 0 => 1
  | width + 1 => 256 * capacity width

/-- The lowest `width` base-256 digits of `n`, least significant first. -/
def littleEndian : (width : Nat) → (n : Nat) → Bytes
  | 0, _ => []
  | width + 1, n => UInt8.ofNat n :: littleEndian width (n / 256)

/-- The lowest `width` base-256 digits of `n`, most significant first. -/
def bigEndian (width n : Nat) : Bytes :=
  (littleEndian width n).reverse

/-- The number whose base-256 digits are `bs`, least significant first. -/
def ofLittleEndian (bs : Bytes) : Nat :=
  bs.foldr (fun b n => b.toNat + 256 * n) 0

/-- The number whose base-256 digits are `bs`, most significant first. -/
def ofBigEndian (bs : Bytes) : Nat :=
  ofLittleEndian bs.reverse

@[simp] theorem length_littleEndian (width n : Nat) : (littleEndian width n).length = width := by
  induction width generalizing n with
  | zero => rfl
  | succ width ih => simp [littleEndian, ih]

@[simp] theorem length_bigEndian (width n : Nat) : (bigEndian width n).length = width := by
  simp [bigEndian]

/-- The digits of `n` are those of its remainder by the capacity. -/
theorem ofLittleEndian_littleEndian (width n : Nat) :
    ofLittleEndian (littleEndian width n) = n % capacity width := by
  induction width generalizing n with
  | zero => exact (Nat.mod_one n).symm
  | succ width ih =>
    rw [capacity, Nat.mod_mul, ← ih (n / 256)]
    exact congrArg (· + 256 * ofLittleEndian (littleEndian width (n / 256))) UInt8.toNat_ofNat'

theorem ofBigEndian_bigEndian (width n : Nat) :
    ofBigEndian (bigEndian width n) = n % capacity width := by
  rw [ofBigEndian, bigEndian, List.reverse_reverse, ofLittleEndian_littleEndian]

/-- Numbers below the capacity with equal digits are equal. -/
theorem bigEndian_injective {width m n : Nat} (hm : m < capacity width) (hn : n < capacity width)
    (h : bigEndian width m = bigEndian width n) : m = n := by
  rw [← Nat.mod_eq_of_lt hm, ← Nat.mod_eq_of_lt hn, ← ofBigEndian_bigEndian,
    ← ofBigEndian_bigEndian, h]

/-! ## Text -/

/-- The UTF-8 bytes of a text. -/
def utf8 (s : String) : Bytes :=
  s.toByteArray.data.toList

/-- The text whose UTF-8 bytes are `bs`, if they are well formed. -/
def text? (bs : Bytes) : Option String :=
  String.fromUTF8? ⟨bs.toArray⟩

/-- The UTF-8 bytes of a text determine the text. -/
theorem utf8_injective {s t : String} (h : utf8 s = utf8 t) : s = t :=
  String.toByteArray_inj.1 (ByteArray.ext (Array.toList_inj.1 h))

/-! ## Hexadecimal text -/

/-- The lower-case hexadecimal digit of a value below sixteen. -/
def hexDigit (n : Nat) : Char :=
  if n < 10 then Char.ofNat (48 + n) else Char.ofNat (87 + n)

/-- The two hexadecimal digits of a byte, high half first. -/
def hexByte (b : UInt8) : List Char :=
  [hexDigit (b.toNat / 16), hexDigit (b.toNat % 16)]

/-- Two lower-case hexadecimal digits for each byte. -/
def toHex (bs : Bytes) : String :=
  String.ofList (bs.flatMap hexByte)

/-- The value of a hexadecimal digit of either case. -/
def hexValue? (c : Char) : Option Nat :=
  if '0' ≤ c ∧ c ≤ '9' then some (c.toNat - 48)
  else if 'a' ≤ c ∧ c ≤ 'f' then some (c.toNat - 87)
  else if 'A' ≤ c ∧ c ≤ 'F' then some (c.toNat - 55)
  else none

/-- Reads pairs of hexadecimal digits. -/
def ofHexDigits? : List Char → Option Bytes
  | [] => some []
  | [_] => none
  | high :: low :: rest =>
    match hexValue? high, hexValue? low, ofHexDigits? rest with
    | some h, some l, some bs => some (UInt8.ofNat (16 * h + l) :: bs)
    | _, _, _ => none

/-- The bytes written by a hexadecimal text: an even number of digits of either case. -/
def ofHex? (s : String) : Option Bytes :=
  ofHexDigits? s.toList

theorem hexValue?_hexDigit {n : Nat} (h : n < 16) : hexValue? (hexDigit n) = some n := by
  have : ∀ n : Fin 16, hexValue? (hexDigit n) = some n.val := by decide
  exact this ⟨n, h⟩

theorem ofHexDigits?_flatMap (bs : Bytes) : ofHexDigits? (bs.flatMap hexByte) = some bs := by
  induction bs with
  | nil => rfl
  | cons b bs ih =>
    have hb := b.toNat_lt
    simp only [List.flatMap_cons, hexByte, List.cons_append, List.nil_append, ofHexDigits?,
      hexValue?_hexDigit (show b.toNat / 16 < 16 by omega),
      hexValue?_hexDigit (show b.toNat % 16 < 16 by omega), ih]
    rw [Nat.div_add_mod, UInt8.ofNat_toNat]

/-- Hexadecimal text reads back as the bytes it was written from. -/
theorem ofHex?_toHex (bs : Bytes) : ofHex? (toHex bs) = some bs := by
  simp [ofHex?, toHex, ofHexDigits?_flatMap]

end Bytes

end ParticleLedger
