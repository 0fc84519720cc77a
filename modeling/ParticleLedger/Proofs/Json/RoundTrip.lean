import Mathlib.Data.List.Nodup
import ParticleLedger.Json.Format
import ParticleLedger.Proofs.Json.Reading

/-!
# Values that survive being written

A value makes the round trip through a format if it can be written and the text reads back as it.
Since plain values are read back from their texts, it is enough that the value is written as a plain
value from which it is read. Each way of making formats from others keeps that.

Main statements: `Format.Keeps.roundTrips`, `Format.keeps_list` and its siblings, and
`Value.fields?_record` (the fields of a record are found).
-/

namespace ParticleLedger.Json

/-! ## Counts and records -/

namespace Value

theorem count?_ofNat (n : Nat) : (ofNat n).count? = some n := by
  have hdigits : (Nat.toDigits 10 n).all Char.isDigit = true :=
    List.all_eq_true.2 fun c hc => Nat.isDigit_of_mem_toDigits (by decide) (by decide) hc
  rw [ofNat, count?, if_pos hdigits, Nat.ofDigitChars_ten_toDigits]

/-- The fields of a record are found, each under its name. -/
theorem fields?_record {members : List (String × Value)} (h : (members.map (·.1)).Nodup) :
    (record members).fields? (members.map (·.1)) = some ⟨false, members⟩ := by
  have hnamed : (withUnits members).mapM (fun m => (StringUnit.text? m.1).map (·, m.2)) =
      some members := by
    clear h
    induction members with
    | nil => rfl
    | cons m members ih => simp [withUnits_cons, StringUnit.text?_ofText, ih]
  have hknown : members.all
      (fun m => (members.map (·.1)).contains m.1 || m.2.isTidy) = true := by
    refine List.all_eq_true.2 fun m hm => ?_
    have hname : (members.map (·.1)).contains m.1 = true :=
      List.contains_iff_mem.2 (List.mem_map_of_mem hm)
    rw [hname, Bool.true_or]
  have honce : (members.map (·.1)).all
      (fun name => (members.filter (·.1 = name)).length ≤ 1) = true := by
    refine List.all_eq_true.2 fun name _ => decide_eq_true ?_
    have hcount := List.nodup_iff_count_le_one.1 h name
    rw [List.count_eq_countP, List.countP_map, List.countP_eq_length_filter] at hcount
    exact hcount
  change ((withUnits members).mapM fun m => (StringUnit.text? m.1).map (·, m.2)).bind _ = _
  rw [hnamed, Option.bind_some]
  exact if_pos (Bool.and_eq_true_iff.2 ⟨hknown, honce⟩)

end Value

namespace Fields

variable {α : Type} {f : Format α} {name other : String} {v : Value} {positional : Bool}
  {rest : List (String × Value)}

@[simp] theorem required_head : required ⟨positional, (name, v) :: rest⟩ name f = f.read v := by
  simp [required]

@[simp] theorem required_tail (h : name ≠ other) :
    required ⟨positional, (other, v) :: rest⟩ name f = required ⟨positional, rest⟩ name f := by
  simp [required, List.lookup_cons, beq_false_of_ne h]

end Fields

namespace Format

variable {α β : Type} {f : Format α} {g : Format β} {a : α} {b : β}

/-! ## The round trip -/

/-- The value can be written, and the text reads back as it. -/
def RoundTrips (f : Format α) (a : α) : Prop :=
  ∃ text, f.render? a = some text ∧ f.parse? text = some a

/-- The value is written as a plain value that reads back as it. -/
def Keeps (f : Format α) (a : α) : Prop :=
  ∃ v, f.write a = some v ∧ v.Plain ∧ f.read v = some a

theorem Keeps.roundTrips (h : f.Keeps a) : f.RoundTrips a := by
  obtain ⟨v, hwrite, hplain, hread⟩ := h
  refine ⟨v.render, ?_, ?_⟩
  · rw [render?, hwrite, Option.map_some]
  · rw [parse?, parse?_render hplain, Option.bind_some, hread]

theorem keeps_text (s : String) : text.Keeps s :=
  ⟨.ofText s, rfl, .text s, StringUnit.text?_ofText s⟩

theorem keeps_byte (b : UInt8) : byte.Keeps b := by
  refine ⟨.ofNat b.toNat, rfl, .count _, ?_⟩
  simp [byte, Value.count?_ofNat, b.toNat_lt]

theorem keeps_word64 (w : UInt64) : word64.Keeps w := by
  refine ⟨.ofNat w.toNat, rfl, .count _, ?_⟩
  simp [word64, Value.count?_ofNat, w.toNat_lt]

theorem keeps_list (as : List α) (h : ∀ a ∈ as, f.Keeps a) : (list f).Keeps as := by
  have hitems : ∃ vs, as.mapM f.write = some vs ∧ (∀ v ∈ vs, v.Plain) ∧
      vs.mapM f.read = some as := by
    induction as with
    | nil => exact ⟨[], rfl, by simp, rfl⟩
    | cons a as ih =>
      obtain ⟨v, hwrite, hplain, hread⟩ := h a List.mem_cons_self
      obtain ⟨vs, hwrites, hplains, hreads⟩ := ih fun b hb => h b (List.mem_cons_of_mem _ hb)
      refine ⟨v :: vs, ?_, List.forall_mem_cons.2 ⟨hplain, hplains⟩, ?_⟩
      · simp [hwrite, hwrites]
      · simp [hread, hreads]
  obtain ⟨vs, hwrites, hplains, hreads⟩ := hitems
  refine ⟨.array vs, ?_, .array hplains, ?_⟩
  · simp [list, hwrites]
  · simp [list, Value.items?, hreads]

theorem keeps_none : (option f).Keeps none :=
  ⟨.null, rfl, .null, rfl⟩

/-- A value that is not written as null survives as one that may be missing. -/
theorem keeps_some (h : f.Keeps a) (hnull : f.write a ≠ some .null) :
    (option f).Keeps (some a) := by
  obtain ⟨v, hwrite, hplain, hread⟩ := h
  refine ⟨v, hwrite, hplain, ?_⟩
  cases v with
  | null => contradiction
  | _ => simp [option, hread]

theorem keeps_via {view : α → β} {ofView? : β → Option α} (h : g.Keeps (view a))
    (hview : ofView? (view a) = some a) : (via g view ofView?).Keeps a := by
  obtain ⟨v, hwrite, hplain, hread⟩ := h
  exact ⟨v, hwrite, hplain, by simp only [via, hread, Option.bind_some, hview]⟩

/-- A value that is written as a record survives if it is read from any value in which the fields of
the record are found. -/
theorem keeps_record (members : List (String × Value)) (hnames : (members.map (·.1)).Nodup)
    (hplain : ∀ m ∈ members, m.2.Plain) (hwrite : f.write a = some (.record members))
    (hread : ∀ v, v.fields? (members.map (·.1)) = some ⟨false, members⟩ → f.read v = some a) :
    f.Keeps a :=
  ⟨.record members, hwrite, .record hplain, hread _ (Value.fields?_record hnames)⟩

/-- A value that is written as the only member of an object survives if its content does. -/
theorem keeps_case (name : String) (h : g.Keeps b)
    (hwrite : ∀ v, g.write b = some v → f.write a = some (.record [(name, v)]))
    (hread : ∀ v, g.read v = some b → f.read (.record [(name, v)]) = some a) : f.Keeps a := by
  obtain ⟨v, hv, hplain, hback⟩ := h
  exact ⟨.record [(name, v)], hwrite v hv, .record (by simp [hplain]), hread v hback⟩

/-! ## Maps -/

section Maps

variable {κ : Type} [Ord κ] [Std.TransOrd κ] {key : Format κ} {m : Std.ExtTreeMap κ α}

theorem keeps_map_empty : (map key f).Keeps ∅ := by
  have hlist : (∅ : Std.ExtTreeMap κ α).toList = [] := Std.ExtTreeMap.toList_eq_nil_iff.2 rfl
  refine ⟨.record [], ?_, .record (by simp), ?_⟩
  · simp [map, hlist, Value.record]
  · simp [map, Value.record, Value.members?, Std.ExtTreeMap.ofList_nil]

/-- If no key is written as a string, only the empty map can be written. -/
theorem write_map_eq_none (hkey : ∀ k, (key.write k).bind Value.name? = none) (hm : m ≠ ∅) :
    (map key f).write m = none := by
  cases hlist : m.toList with
  | nil => exact absurd (Std.ExtTreeMap.toList_eq_nil_iff.1 hlist) hm
  | cons e rest =>
    have hfirst := hkey e.1
    simp [map, hlist, ← Option.bind_assoc, hfirst]

/-- If no string is read as a key, only the empty map is ever read. -/
theorem eq_empty_of_read_map (hkey : ∀ name, key.read (.string name) = none) {v : Value}
    (h : (map key f).read v = some m) : m = ∅ := by
  obtain ⟨members, hmembers, hread⟩ := Option.bind_eq_some_iff.1 h
  cases members with
  | nil => simpa using hread.symm
  | cons e rest => simp [hkey] at hread

end Maps

end Format

end ParticleLedger.Json
