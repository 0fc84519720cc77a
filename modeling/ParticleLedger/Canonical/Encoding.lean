import ParticleLedger.Canonical.Value
import ParticleLedger.Digest

/-!
# Canonical bytes

A canonical value is written as one tag byte and its content; everything of variable length is
preceded by its length or count in four bytes, most significant first. A count is written modulo
`2 ^ 32`.

Main statements: `encode_text`, `encode_list`, `encode_object` and their siblings, one equation for
each kind of value.
-/

namespace ParticleLedger.Canonical

/-- The first byte of a written value. -/
inductive Tag where
  | none | bool | number | bytes | text | list | object
  deriving DecidableEq

def Tag.byte : Tag → UInt8
  | .none => 0
  | .bool => 1
  | .number => 2
  | .bytes => 3
  | .text => 4
  | .list => 5
  | .object => 6

/-- A length or count. -/
def count (n : Nat) : Bytes :=
  Bytes.bigEndian 4 n

/-- Bytes after their length. -/
def counted (bs : Bytes) : Bytes :=
  count bs.length ++ bs

namespace Value

mutual

/-- The canonical bytes of a value. -/
def encode : Value → Bytes
  | .none => [Tag.none.byte]
  | .bool b => [Tag.bool.byte, if b then 1 else 0]
  | .number n => Tag.number.byte :: Bytes.bigEndian 8 n.toNat
  | .bytes bs => Tag.bytes.byte :: counted bs
  | .text s => Tag.text.byte :: counted (Bytes.utf8 s)
  | .list items => Tag.list.byte :: (count items.length ++ encodeItems items)
  | .object fields => Tag.object.byte :: (count fields.length ++ encodeFields fields)

/-- The items of a list, one after another. -/
def encodeItems : List Value → Bytes
  | [] => []
  | item :: rest => encode item ++ encodeItems rest

/-- The fields of an object, each as its counted name and its value. -/
def encodeFields : List (String × Value) → Bytes
  | [] => []
  | (name, value) :: rest => counted (Bytes.utf8 name) ++ (encode value ++ encodeFields rest)

end

/-- The digest of the canonical bytes. -/
def digest (v : Value) : Digest :=
  .of v.encode

@[simp] theorem encode_none : encode .none = [0] := rfl

@[simp] theorem encode_bool (b : Bool) : encode (.bool b) = [1, if b then 1 else 0] := rfl

@[simp] theorem encode_number (n : UInt64) :
    encode (.number n) = 2 :: Bytes.bigEndian 8 n.toNat := rfl

@[simp] theorem encode_bytes (bs : Bytes) : encode (.bytes bs) = 3 :: counted bs := rfl

@[simp] theorem encode_text (s : String) : encode (.text s) = 4 :: counted (Bytes.utf8 s) := rfl

@[simp] theorem encode_list (items : List Value) :
    encode (.list items) = 5 :: (count items.length ++ items.flatMap encode) := by
  have h : ∀ items : List Value, encodeItems items = items.flatMap encode := by
    intro items
    induction items with
    | nil => rfl
    | cons item rest ih => simp [encodeItems, ih]
  simp [encode, h, Tag.byte]

@[simp] theorem encode_object (fields : List (String × Value)) :
    encode (.object fields) = 6 :: (count fields.length ++
      fields.flatMap fun f => counted (Bytes.utf8 f.1) ++ encode f.2) := by
  have h : ∀ fields : List (String × Value), encodeFields fields =
      fields.flatMap fun f => counted (Bytes.utf8 f.1) ++ encode f.2 := by
    intro fields
    induction fields with
    | nil => rfl
    | cons f rest ih => simp [encodeFields, ih]
  simp [encode, h, Tag.byte]

end Value

end ParticleLedger.Canonical
