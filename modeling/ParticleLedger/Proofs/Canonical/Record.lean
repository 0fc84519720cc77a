import Mathlib.Data.List.Basic
import ParticleLedger.Proofs.Canonical.Injectivity

/-!
# What a record says

A record is written field by field. A field that is written once keeps its value, so records with the
same field names are equal only if they are of one kind and all their fields agree, and a record is
within the range of counts if what is written into it is.

Main statements: `Value.record_inj`, `Value.serializer_inj` and `Value.record_withinRange`.
-/

namespace ParticleLedger.Canonical

namespace Fields

variable {name : String} {value : Value} {fields : Fields} {writes : List (String × Value)}

theorem write_cons (w : String × Value) :
    write (w :: writes) fields = write writes (fields.insert w.1 w.2) := rfl

/-- A name that is not written keeps its value. -/
theorem get?_write_of_not_mem (h : name ∉ writes.map (·.1)) :
    get? name (write writes fields) = get? name fields := by
  induction writes generalizing fields with
  | nil => rfl
  | cons w rest ih =>
    obtain ⟨hfirst, hrest⟩ := List.ne_and_not_mem_of_not_mem_cons h
    rw [write_cons, ih hrest, get?_insert, if_neg hfirst]

/-- A name that is written once has the written value. -/
theorem get?_write_of_mem (hnodup : (writes.map (·.1)).Nodup) (h : (name, value) ∈ writes) :
    get? name (write writes fields) = some value := by
  induction writes generalizing fields with
  | nil => contradiction
  | cons w rest ih =>
    obtain ⟨hfirst, hrest⟩ := List.nodup_cons.1 hnodup
    rw [write_cons]
    rcases List.mem_cons.1 h with rfl | h
    · rw [get?_write_of_not_mem hfirst, get?_insert, if_pos rfl]
    · exact ih hrest h

/-- A field after some writes is one of those written or was there before. -/
theorem mem_write {f : String × Value} (h : f ∈ write writes fields) : f ∈ writes ∨ f ∈ fields := by
  induction writes generalizing fields with
  | nil => exact .inr h
  | cons w rest ih =>
    rcases ih h with hrest | hearlier
    · exact .inl (List.mem_cons_of_mem _ hrest)
    · rcases mem_insert hearlier with rfl | hfields
      · exact .inl List.mem_cons_self
      · exact .inr hfields

theorem length_insert_le (name : String) (value : Value) (fields : Fields) :
    (insert name value fields).length ≤ fields.length + 1 := by
  induction fields with
  | nil => exact Nat.le_refl _
  | cons field rest ih =>
    simp only [insert]
    split
    · exact Nat.le_refl _
    · exact Nat.le_succ _
    · exact Nat.succ_le_succ ih

theorem length_write_le (writes : List (String × Value)) (fields : Fields) :
    (write writes fields).length ≤ fields.length + writes.length := by
  induction writes generalizing fields with
  | nil => exact Nat.le_refl _
  | cons w rest ih =>
    have hfirst := length_insert_le w.1 w.2 fields
    have hrest := ih (fields.insert w.1 w.2)
    rw [write_cons, List.length_cons]
    omega

end Fields

namespace Value

variable {s s' : String} {writes others : List (String × Value)}

/-- The kinds of equal records are equal, if no field is written over them. -/
theorem serializer_inj (h : record s writes = record s' others)
    (hwrites : serializerField ∉ writes.map (·.1)) (hothers : serializerField ∉ others.map (·.1)) :
    s = s' := by
  have hkind : ∀ {s : String} {writes : List (String × Value)},
      serializerField ∉ writes.map (·.1) →
      (Fields.write ((serializerField, text s) :: writes) []).get? serializerField =
        some (text s) := by
    intro s writes hnot
    rw [Fields.write_cons, Fields.get?_write_of_not_mem hnot, Fields.get?_insert, if_pos rfl]
  have hfields := congrArg (Fields.get? serializerField) (object.inj h)
  rw [hkind hwrites, hkind hothers] at hfields
  exact text.inj (Option.some.inj hfields)

/-- Records with the same fields, each written once, are equal only if the fields agree. -/
theorem record_inj (h : record s writes = record s' others)
    (hnames : writes.map (·.1) = others.map (·.1)) (hnodup : (writes.map (·.1)).Nodup) :
    writes = others := by
  have hlength : writes.length = others.length := by simpa using congrArg List.length hnames
  have hvalue : ∀ {s : String} {writes : List (String × Value)} {w : String × Value},
      (writes.map (·.1)).Nodup → w ∈ writes →
      (Fields.write ((serializerField, text s) :: writes) []).get? w.1 = some w.2 := by
    intro s writes w hnodup hw
    rw [Fields.write_cons]
    exact Fields.get?_write_of_mem hnodup hw
  refine List.ext_getElem hlength fun i hi hj => ?_
  have hname : writes[i].1 = others[i].1 := by
    simpa [hi, hj] using congrArg (·[i]?) hnames
  have hfields := congrArg (Fields.get? writes[i].1) (object.inj h)
  rw [hvalue hnodup (List.getElem_mem hi), hname,
    hvalue (hnames ▸ hnodup) (List.getElem_mem hj)] at hfields
  exact Prod.ext hname (Option.some.inj hfields)

/-- A record is within range if its kind, its names and their number are, and what is written into it
is. -/
theorem record_withinRange (hcount : writes.length + 1 < countLimit)
    (hnames : ∀ name ∈ s :: writes.map (·.1), (Bytes.utf8 name).length < countLimit)
    (hvalues : writes.Forall fun w => w.2.WithinRange) : (record s writes).WithinRange := by
  have hwritten : ∀ f ∈ Fields.write ((serializerField, text s) :: writes) [],
      f = (serializerField, text s) ∨ f ∈ writes := by
    intro f hf
    rcases Fields.mem_write hf with hf | hf
    · exact List.mem_cons.1 hf
    · contradiction
  refine .object ?_ ?_ ?_
  · have hle := Fields.length_write_le ((serializerField, text s) :: writes) []
    simp only [List.length_cons, List.length_nil] at hle
    omega
  · intro f hf
    rcases hwritten f hf with rfl | hf
    · exact (by decide : (Bytes.utf8 serializerField).length < countLimit)
    · exact hnames f.1 (List.mem_cons_of_mem _ (List.mem_map_of_mem hf))
  · intro f hf
    rcases hwritten f hf with rfl | hf
    · exact .text (hnames s List.mem_cons_self)
    · exact List.forall_iff_forall_mem.1 hvalues f hf

end Value

end ParticleLedger.Canonical
