import Mathlib.Data.Finset.Card
import ParticleLedger.Proofs.Canonical.Record

/-!
# The order of writes

An object is made by writing fields one after another, under names that may come again. All that is
left of the writes is the last value under each name: the fields are listed in the order of their
names, so neither their order nor what was written over can be told from the bytes. That holds for
the objects inside a value as well.

Main statements: `Fields.get?_write` (the last write counts), `Fields.Sorted.eq_of_get?` (fields in
order are determined by their values), `Value.record_eq_iff` and `Value.record_canonical`.
-/

namespace ParticleLedger.Canonical

namespace Fields

variable {name : String} {value : Value} {fields others : Fields} {writes : List (String × Value)}

/-! ## The last write counts -/

/-- The value that is written last under a name. -/
def lastWritten (name : String) (writes : List (String × Value)) : Option Value :=
  get? name writes.reverse

theorem get?_append (name : String) (fields others : Fields) :
    get? name (fields ++ others) = (get? name fields).or (get? name others) := by
  induction fields with
  | nil => rfl
  | cons f fields ih =>
    simp only [List.cons_append, get?, ih]
    split <;> rfl

theorem lastWritten_cons (name : String) (w : String × Value) (writes : List (String × Value)) :
    lastWritten name (w :: writes) =
      (lastWritten name writes).or (if name = w.1 then some w.2 else none) := by
  simp only [lastWritten, List.reverse_cons, get?_append, get?]

/-- After some writes a name has the value written last under it, or else the one it had before. -/
theorem get?_write (name : String) (writes : List (String × Value)) (fields : Fields) :
    get? name (write writes fields) = (lastWritten name writes).or (get? name fields) := by
  induction writes generalizing fields with
  | nil => rfl
  | cons w rest ih =>
    rw [write_cons, ih, get?_insert, lastWritten_cons, Option.or_assoc]
    split <;> rfl

theorem get?_eq_none_iff : get? name fields = none ↔ name ∉ fields.map (·.1) := by
  induction fields with
  | nil => simp [get?]
  | cons f fields ih =>
    simp only [get?, List.map_cons, List.mem_cons, not_or, ← ih]
    split <;> simp_all

/-! ## Fields in order -/

theorem Sorted.nodup_names (h : Sorted fields) : (fields.map (·.1)).Nodup := by
  refine List.pairwise_map.2 (h.imp fun {f g} hlt heq => ?_)
  rw [compareText_eq_iff.2 heq] at hlt
  contradiction

/-- In fields with different names, the fields are what the names have for values. -/
theorem mem_iff_get? (h : (fields.map (·.1)).Nodup) :
    (name, value) ∈ fields ↔ get? name fields = some value := by
  induction fields with
  | nil => simp [get?]
  | cons f fields ih =>
    obtain ⟨kept, v⟩ := f
    obtain ⟨hfirst, hrest⟩ := List.nodup_cons.1 h
    by_cases hname : name = kept
    · subst hname
      have hnot : (name, value) ∉ fields := fun hmem =>
        hfirst (List.mem_map_of_mem (f := (·.1)) hmem)
      simp [get?, hnot, eq_comm]
    · simp [get?, hname, ih hrest]

/-- Fields in order are determined by the value of every name. -/
theorem Sorted.eq_of_get? (h : Sorted fields) (h' : Sorted others)
    (hget : ∀ name, get? name fields = get? name others) : fields = others := by
  -- They have the same members, and there is one way to put these in order.
  have hperm : fields.Perm others := by
    refine (List.perm_ext_iff_of_nodup h.nodup_names.of_map h'.nodup_names.of_map).2 ?_
    rintro ⟨name, value⟩
    rw [mem_iff_get? h.nodup_names, mem_iff_get? h'.nodup_names, hget]
  refine hperm.eq_of_pairwise (fun f g _ _ hfg hgf => ?_) h h'
  rw [Std.OrientedCmp.gt_of_lt hfg] at hgf
  contradiction

theorem sorted_write (writes : List (String × Value)) : Sorted (write writes []) :=
  Sorted.write List.Pairwise.nil writes

/-- Writing fields leaves the last value under each name. -/
theorem mem_write_iff : (name, value) ∈ write writes [] ↔ lastWritten name writes = some value := by
  rw [mem_iff_get? (sorted_write writes).nodup_names, get?_write, get?, Option.or_none]

/-- Writing fields leaves as many as there are different names. -/
theorem length_write (writes : List (String × Value)) :
    (write writes []).length = (writes.map (·.1)).toFinset.card := by
  have hnames : ((write writes []).map (·.1)).toFinset = (writes.map (·.1)).toFinset := by
    ext name
    have hget : get? name (write writes []) = get? name writes.reverse := by
      rw [get?_write, get?, Option.or_none, lastWritten]
    have hiff : name ∉ (write writes []).map (·.1) ↔ name ∉ writes.reverse.map (·.1) := by
      rw [← get?_eq_none_iff, ← get?_eq_none_iff, hget]
    simpa using not_congr hiff
  rw [← hnames, List.toFinset_card_of_nodup (sorted_write writes).nodup_names, List.length_map]

end Fields

namespace Value

variable {s s' : String} {writes others : List (String × Value)} {v w : Value}

/-! ## What the bytes of an object list -/

/-- Some bytes list these fields: after the tag stands their number, then each has its name and its
value, and the bytes of the names increase strictly. -/
structure Lists (bytes : Bytes) (fields : Fields) : Prop where
  tag : bytes.head? = some Tag.object.byte
  counter : fields.length < countLimit →
    Bytes.ofBigEndian ((bytes.drop 1).take 4) = fields.length
  members : bytes.drop 5 = fields.flatMap fun f => counted (Bytes.utf8 f.1) ++ f.2.encode
  increasing : (fields.map fun f => Bytes.utf8 f.1).Pairwise fun a b => compare a b = .lt

theorem lists_encode {fields : Fields} (h : fields.Sorted) :
    Lists (object fields).encode fields := by
  have hwidth : (count fields.length).length = 4 := Bytes.length_bigEndian 4 _
  rw [encode_object]
  refine ⟨rfl, fun hlt => ?_, ?_, List.pairwise_map.2 h⟩
  · rw [List.drop_one, List.tail_cons, List.take_left' hwidth, count, Bytes.ofBigEndian_bigEndian,
      capacity_count, Nat.mod_eq_of_lt hlt]
  · rw [List.drop_succ_cons, List.drop_left' hwidth]

/-! ## Objects inside a value -/

/-- A value that stands in another one, at any level. -/
inductive PartOf (v : Value) : Value → Prop
  | refl : PartOf v v
  | item {items : List Value} {w : Value} (hmem : w ∈ items) (hpart : PartOf v w) :
      PartOf v (.list items)
  | field {fields : List (String × Value)} {f : String × Value} (hmem : f ∈ fields)
      (hpart : PartOf v f.2) : PartOf v (.object fields)

/-- The bytes of one item stand in those of all items, after whatever comes first. -/
theorem infix_flatMap {α : Type} (encode : α → Bytes) (tag : UInt8) (counter : Bytes) {x : α}
    {xs : List α} (h : x ∈ xs) : encode x <:+: tag :: (counter ++ xs.flatMap encode) := by
  have hitem : encode x <:+: xs.flatMap encode := by
    rw [List.flatMap_def]
    exact List.infix_of_mem_flatten (List.mem_map_of_mem h)
  exact hitem.trans ((List.suffix_append _ _).trans (List.suffix_cons _ _)).isInfix

/-- The bytes of a part stand in the bytes of the whole. -/
theorem PartOf.encode_infix (h : v.PartOf w) : v.encode <:+: w.encode := by
  induction h with
  | refl => exact List.infix_rfl
  | item hmem _ ih =>
    rw [encode_list]
    exact ih.trans (infix_flatMap encode 5 _ hmem)
  | @field fields f hmem _ ih =>
    have hfield : f.2.encode <:+: counted (Bytes.utf8 f.1) ++ f.2.encode :=
      (List.suffix_append _ _).isInfix
    rw [encode_object]
    exact (ih.trans hfield).trans
      (infix_flatMap (fun f : String × Value => counted (Bytes.utf8 f.1) ++ f.2.encode) 6
        (count fields.length) hmem)

/-- A value in which every object, at any level, was made by writing fields. -/
inductive Built : Value → Prop
  | none : Built .none
  | bool {b : Bool} : Built (.bool b)
  | number {n : UInt64} : Built (.number n)
  | bytes {bs : Bytes} : Built (.bytes bs)
  | text {s : String} : Built (.text s)
  | list {items : List Value} (hitems : ∀ v ∈ items, Built v) : Built (.list items)
  | ofFields {writes : List (String × Value)} (hvalues : ∀ w ∈ writes, Built w.2) :
      Built (.ofFields writes)

theorem record_built (h : ∀ w ∈ writes, w.2.Built) : (record s writes).Built := by
  refine .ofFields fun w hw => ?_
  rcases List.mem_cons.1 hw with rfl | hw
  · exact .text
  · exact h w hw

/-- In a value that was built, the fields of every object are in order. -/
theorem Built.sorted_of_partOf (h : v.Built) {fields : Fields}
    (hpart : (object fields).PartOf v) : fields.Sorted := by
  -- Nothing but a list or an object has an object for a part; what was written keeps the property.
  induction h with
  | none => cases hpart
  | bool => cases hpart
  | number => cases hpart
  | bytes => cases hpart
  | text => cases hpart
  | list _ ih =>
    cases hpart with
    | item hmem hpart => exact ih _ hmem hpart
  | @ofFields writes _ ih =>
    rcases hpart with _ | _ | ⟨hmem, hpart⟩
    · exact Fields.sorted_write writes
    · rcases Fields.mem_write hmem with hwritten | hnone
      · exact ih _ hwritten hpart
      · contradiction

/-! ## Records -/

/-- All that is written into a record, in order: first its kind, then the fields. -/
def recordWrites (s : String) (writes : List (String × Value)) : List (String × Value) :=
  (serializerField, text s) :: writes

/-- Records are equal exactly if under every name the same was written last. -/
theorem record_eq_iff : record s writes = record s' others ↔
    ∀ name, Fields.lastWritten name (recordWrites s writes) =
      Fields.lastWritten name (recordWrites s' others) := by
  have hvalue : ∀ (s : String) (writes : List (String × Value)) (name : String),
      Fields.get? name (Fields.write (recordWrites s writes) []) =
        Fields.lastWritten name (recordWrites s writes) := by
    intro s writes name
    rw [Fields.get?_write, Fields.get?, Option.or_none]
  constructor
  · intro h name
    rw [← hvalue, ← hvalue]
    exact congrArg (Fields.get? name) (object.inj h)
  · intro h
    refine congrArg object ?_
    refine (Fields.sorted_write _).eq_of_get? (Fields.sorted_write _) fun name => ?_
    exact (hvalue s writes name).trans ((h name).trans (hvalue s' others name).symm)

/-- The bytes of a record depend only on what was written last under each name. They list exactly
these values, as many as there are different names, and wherever an object stands in a record of
values that were built, its bytes list its fields by increasing names. -/
theorem record_canonical (s : String) (writes : List (String × Value)) :
    (∀ s' others,
      (∀ name, Fields.lastWritten name (recordWrites s writes) =
        Fields.lastWritten name (recordWrites s' others)) →
      (record s writes).encode = (record s' others).encode) ∧
    (∃ fields, record s writes = object fields ∧ Lists (record s writes).encode fields ∧
      (∀ name value, (name, value) ∈ fields ↔
        Fields.lastWritten name (recordWrites s writes) = some value) ∧
      fields.length = ((recordWrites s writes).map (·.1)).toFinset.card) ∧
    ((∀ w ∈ writes, w.2.Built) → ∀ fields, (object fields).PartOf (record s writes) →
      (object fields).encode <:+: (record s writes).encode ∧
      Lists (object fields).encode fields) := by
  refine ⟨?_, ⟨Fields.write (recordWrites s writes) [], rfl, ?_, ?_, ?_⟩, ?_⟩
  · intro s' others hsame
    rw [record_eq_iff.2 hsame]
  · exact lists_encode (Fields.sorted_write _)
  · intro name value
    exact Fields.mem_write_iff
  · exact Fields.length_write _
  · intro hbuilt fields hpart
    exact ⟨hpart.encode_infix, lists_encode ((record_built hbuilt).sorted_of_partOf hpart)⟩

/-- A name that begins another one and a name outside ASCII: an object written in two ways, with an
object inside. -/
theorem record_canonical_similar_names :
    let inner := record "u" [("é", number 1), ("e", number 2)]
    let writes := [("ab", number 2), ("a", inner), ("ab", number 3)]
    (∀ w ∈ writes, w.2.Built) ∧
      (record "t" writes).encode = (record "t" [("a", inner), ("ab", number 3)]).encode ∧
      inner.encode <:+: (record "t" writes).encode ∧
      Lists inner.encode [("e", number 2), ("serializer", text "u"), ("é", number 1)] := by
  intro inner writes
  have hinner : inner = object [("e", number 2), ("serializer", text "u"), ("é", number 1)] := by
    rfl
  have hbuilt : ∀ w ∈ writes, w.2.Built := by
    have hnumbers : inner.Built := record_built fun w hw => by
      simp only [List.mem_cons, List.not_mem_nil, or_false] at hw
      rcases hw with rfl | rfl <;> exact .number
    intro w hw
    simp only [writes, List.mem_cons, List.not_mem_nil, or_false] at hw
    rcases hw with rfl | rfl | rfl
    · exact .number
    · exact hnumbers
    · exact .number
  have hsame : ∀ name, Fields.lastWritten name (recordWrites "t" writes) =
      Fields.lastWritten name (recordWrites "t" [("a", inner), ("ab", number 3)]) := by
    intro name
    simp only [Fields.lastWritten, recordWrites, writes, List.reverse_cons, List.reverse_nil,
      List.nil_append, List.cons_append, Fields.get?]
    split
    · rfl
    · simp_all
  have hpart : inner.PartOf (record "t" writes) :=
    .field (f := ("a", inner)) (Fields.mem_write_iff.2 rfl) .refl
  obtain ⟨hbytes, -, hobjects⟩ := record_canonical "t" writes
  rw [hinner] at hpart ⊢
  exact ⟨hbuilt, hbytes "t" _ hsame, hobjects hbuilt _ hpart⟩

end Value

end ParticleLedger.Canonical
