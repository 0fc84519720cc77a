import ParticleLedger.Order

/-!
# Canonical values

Everything that has an identity is first turned into a canonical value: a tree of numbers, texts,
byte strings, lists and objects. An object lists its fields in strictly increasing order of the
UTF-8 bytes of their names, so that the order in which the fields were written leaves no trace.

Main statements: `Fields.get?_insert` (what a write does to the fields), `Fields.Sorted.insert` (a
write keeps the order) and `Value.record_sorted`.
-/

namespace ParticleLedger.Canonical

/-- A tree of canonical data. -/
inductive Value where
  | none
  | bool (b : Bool)
  | number (n : UInt64)
  | bytes (bs : Bytes)
  | text (s : String)
  | list (items : List Value)
  | object (fields : List (String × Value))

/-- The fields of an object, each a name and a value. -/
abbrev Fields := List (String × Value)

namespace Fields

/-- Writes a field at its place; an earlier value under the name is replaced. -/
def insert (name : String) (value : Value) : Fields → Fields
  | [] => [(name, value)]
  | (other, kept) :: rest =>
    match compareText name other with
    | .lt => (name, value) :: (other, kept) :: rest
    | .eq => (name, value) :: rest
    | .gt => (other, kept) :: insert name value rest

/-- The value under a name. -/
def get? (name : String) : Fields → Option Value
  | [] => none
  | (other, value) :: rest => if name = other then some value else get? name rest

/-- The fields after a list of writes, in the order of the list. -/
def write (writes : List (String × Value)) (fields : Fields) : Fields :=
  writes.foldl (fun fields w => fields.insert w.1 w.2) fields

/-- The names increase strictly. -/
def Sorted (fields : Fields) : Prop :=
  fields.Pairwise fun a b => compareText a.1 b.1 = .lt

/-- After a write the name has the new value and every other name keeps its own. -/
theorem get?_insert (name other : String) (value : Value) (fields : Fields) :
    get? other (insert name value fields) =
      if other = name then some value else get? other fields := by
  induction fields with
  | nil => simp [insert, get?]
  | cons field rest ih =>
    obtain ⟨kept, v⟩ := field
    simp only [insert]
    split
    · simp [get?]
    · next h =>
      obtain rfl := compareText_eq_iff.1 h
      simp [get?]
      grind
    · next h =>
      have hne : name ≠ kept := by
        rintro rfl
        simp [compareText_eq_iff.2 rfl] at h
      simp only [get?, ih]
      grind

/-- A name in the fields after a write is the written one or was there before. -/
theorem mem_insert {name : String} {value : Value} {fields : Fields} {f : String × Value}
    (h : f ∈ insert name value fields) : f = (name, value) ∨ f ∈ fields := by
  induction fields with
  | nil => simpa [insert] using h
  | cons field rest ih =>
    obtain ⟨kept, v⟩ := field
    simp only [insert] at h
    split at h <;> grind

theorem Sorted.insert {fields : Fields} (h : Sorted fields) (name : String) (value : Value) :
    Sorted (fields.insert name value) := by
  induction fields with
  | nil => simp [Sorted, Fields.insert]
  | cons field rest ih =>
    obtain ⟨kept, v⟩ := field
    have hrest : Sorted rest := (List.pairwise_cons.1 h).2
    have hhead := (List.pairwise_cons.1 h).1
    simp only [Fields.insert]
    split
    · next hlt =>
      refine List.pairwise_cons.2 ⟨fun f hf => ?_, h⟩
      rcases List.mem_cons.1 hf with rfl | hf
      · exact hlt
      · exact Std.TransCmp.lt_trans hlt (hhead f hf)
    · next heq =>
      obtain rfl := compareText_eq_iff.1 heq
      exact List.pairwise_cons.2 ⟨hhead, hrest⟩
    · next hgt =>
      refine List.pairwise_cons.2 ⟨fun f hf => ?_, ih hrest⟩
      rcases mem_insert hf with rfl | hf
      · exact Std.OrientedCmp.lt_of_gt hgt
      · exact hhead f hf

theorem Sorted.write {fields : Fields} (h : Sorted fields) (writes : List (String × Value)) :
    Sorted (fields.write writes) := by
  induction writes generalizing fields with
  | nil => exact h
  | cons w writes ih => exact ih (h.insert w.1 w.2)

end Fields

namespace Value

/-- The name under which an object says what kind of thing it describes. -/
def serializerField : String := "serializer"

/-- An object made by writing fields one after another into an empty one. -/
def ofFields (writes : List (String × Value)) : Value :=
  .object (Fields.write writes [])

/-- An object that names its kind first and then has the fields written one after another. -/
def record (serializer : String) (writes : List (String × Value)) : Value :=
  ofFields ((serializerField, .text serializer) :: writes)

/-- A value that may be missing. -/
def ofOption : Option Value → Value
  | Option.none => .none
  | some v => v

/-- The fields of a record are in order. -/
theorem record_sorted (serializer : String) (writes : List (String × Value)) :
    ∃ fields, record serializer writes = .object fields ∧ Fields.Sorted fields :=
  ⟨_, rfl, Fields.Sorted.write List.Pairwise.nil _⟩

end Value

end ParticleLedger.Canonical
