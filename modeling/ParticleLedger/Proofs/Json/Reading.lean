import Mathlib.Data.List.TakeDrop
import ParticleLedger.Json.Parser

/-!
# Written values read back

A value whose numbers are counts and whose strings and names are texts is read back as it was
written. Nothing has to be known about the text around it but that a number is not followed by what
would continue it: within a value a comma or a closing bracket comes next.

Main statements: `value_print` (a written value before other text) and `parse?_render`.
-/

namespace ParticleLedger.Json

/-! ## What follows a value -/

/-- What comes after a value in a text that was written: nothing, or a character that separates or
closes. -/
inductive Stops : List Char → Prop
  | nil : Stops []
  | comma (rest : List Char) : Stops (',' :: rest)
  | bracket (rest : List Char) : Stops (']' :: rest)
  | brace (rest : List Char) : Stops ('\x7d' :: rest)

variable {rest : List Char}

theorem Stops.head_not_digit (h : Stops rest) : rest.head?.any Char.isDigit = false := by
  cases h <;> rfl

theorem skipBlanks_cons {c : Char} (h : isBlank c = false) :
    skipBlanks (c :: rest) = c :: rest := by
  simp [skipBlanks, h]

theorem isBlank_of_isDigit {c : Char} (h : c.isDigit) : isBlank c = false := by
  have hne : ∀ d : Char, d.isDigit = false → c ≠ d := by
    rintro d hd rfl
    rw [h] at hd
    contradiction
  simp [isBlank, hne ' ' rfl, hne '\n' rfl, hne '\t' rfl, hne '\r' rfl]

/-! ## Counts -/

theorem digits_append (run : List Char) (hne : run ≠ []) (hrun : ∀ c ∈ run, c.isDigit)
    (h : Stops rest) : digits (run ++ rest) = some (run, rest) := by
  have htake : rest.takeWhile Char.isDigit = [] := by cases h <;> rfl
  have hdrop : rest.dropWhile Char.isDigit = rest := by cases h <;> rfl
  have hspan : (run ++ rest).span Char.isDigit = (run, rest) := by
    rw [List.span_eq_takeWhile_dropWhile, List.takeWhile_append_of_pos hrun,
      List.dropWhile_append_of_pos hrun, htake, hdrop, List.append_nil]
  cases run with
  | nil => contradiction
  | cons c run => simp only [digits, hspan]

theorem toDigits_eq_digit_cons (n : Nat) :
    ∃ c run, Nat.toDigits 10 n = c :: run ∧ c.isDigit := by
  obtain ⟨c, run, hrun⟩ := List.exists_cons_of_ne_nil (Nat.toDigits_ne_nil (b := 10) (n := n))
  have hmem : c ∈ Nat.toDigits 10 n := hrun ▸ List.mem_cons_self
  exact ⟨c, run, hrun, Nat.isDigit_of_mem_toDigits (by decide) (by decide) hmem⟩

/-- The first digit of a positive number is not zero. -/
theorem toDigits_eq_cons {n : Nat} (h : 0 < n) :
    ∃ c run, Nat.toDigits 10 n = c :: run ∧ c ≠ '0' := by
  induction n using Nat.strongRecOn with
  | ind n ih =>
    by_cases hsmall : n < 10
    · have hdigit : ∀ n : Fin 10, 0 < n.val → n.val.digitChar ≠ '0' := by decide
      exact ⟨_, [], Nat.toDigits_of_lt_base hsmall, hdigit ⟨n, hsmall⟩ h⟩
    · obtain ⟨c, run, hrun, hc⟩ := ih (n / 10) (by omega) (by omega)
      refine ⟨c, run ++ [(n % 10).digitChar], ?_, hc⟩
      rw [Nat.toDigits_of_base_le (by decide) (by omega), hrun, List.cons_append]

theorem wholePart_toDigits (n : Nat) (h : Stops rest) :
    wholePart (Nat.toDigits 10 n ++ rest) = some (Nat.toDigits 10 n, rest) := by
  rcases Nat.eq_zero_or_pos n with rfl | hpos
  · rw [Nat.toDigits_zero, List.singleton_append, wholePart, h.head_not_digit]
    rfl
  · have hdigits := digits_append (Nat.toDigits 10 n) Nat.toDigits_ne_nil
      (fun c hc => Nat.isDigit_of_mem_toDigits (by decide) (by decide) hc) h
    obtain ⟨c, run, hrun, hc⟩ := toDigits_eq_cons hpos
    rw [hrun] at hdigits ⊢
    rw [List.cons_append, wholePart, ← List.cons_append, hdigits]
    simpa using hc

theorem unsignedNumber_toDigits (n : Nat) (h : Stops rest) :
    unsignedNumber (Nat.toDigits 10 n ++ rest) = some (Nat.toDigits 10 n, rest) := by
  have hfraction : fraction rest = some ([], rest) := by cases h <;> rfl
  have hexponent : exponent rest = some ([], rest) := by cases h <;> rfl
  simp [unsignedNumber, wholePart_toDigits n h, hfraction, hexponent]

/-- A count is read as a value of no parts. -/
theorem scalar_toDigits (n : Nat) (h : Stops rest) :
    scalar (Nat.toDigits 10 n ++ rest) = some (.ofNat n, rest) := by
  have hnumber := unsignedNumber_toDigits n h
  obtain ⟨c, run, hrun, hdigit⟩ := toDigits_eq_digit_cons n
  rw [Value.ofNat]
  rw [hrun] at hnumber ⊢
  rw [List.cons_append, scalar, number, ← List.cons_append, hnumber]
  · rfl
  all_goals
    intro _ heq
    obtain ⟨rfl, -⟩ := List.cons.inj heq
    contradiction

/-! ## Texts -/

theorem unitOfDigits?_unitDigits (u : UInt16) :
    ∃ a b c d, unitDigits u = [a, b, c, d] ∧ unitOfDigits? a b c d = some u := by
  have hu := u.toNat_lt
  refine ⟨_, _, _, _, rfl, ?_⟩
  simp only [unitOfDigits?, Bytes.hexValue?_hexDigit (show u.toNat / 4096 < 16 by omega),
    Bytes.hexValue?_hexDigit (show u.toNat / 256 % 16 < 16 by omega),
    Bytes.hexValue?_hexDigit (show u.toNat / 16 % 16 < 16 by omega),
    Bytes.hexValue?_hexDigit (show u.toNat % 16 < 16 by omega), Option.bind_eq_bind,
    Option.bind_some, Option.pure_def]
  rw [show u.toNat / 4096 * 4096 + u.toNat / 256 % 16 * 256 + u.toNat / 16 % 16 * 16 +
    u.toNat % 16 = u.toNat by omega, UInt16.ofNat_toNat]

/-- The letter that is written for a unit stands for it, and is not the one before digits. -/
theorem unitOfLetter?_of_find {u v : UInt16} {letter : Char}
    (h : escapeLetters.find? (·.2 = u) = some (letter, v)) :
    letter ≠ 'u' ∧ unitOfLetter? letter = some u := by
  obtain rfl : v = u := by simpa using List.find?_some h
  have hletters : ∀ e ∈ escapeLetters, e.1 ≠ 'u' ∧ unitOfLetter? e.1 = some e.2 := by decide
  exact hletters _ (List.mem_of_find?_eq_some h)

theorem stringBody_escaped {u : UInt16} {units : List StringUnit} {text : List Char}
    (h : stringBody text = some (units, rest)) :
    stringBody (StringUnit.print (.escaped u) ++ text) = some (.escaped u :: units, rest) := by
  cases hfind : escapeLetters.find? (·.2 = u) with
  | some e =>
    obtain ⟨hletter, hunit⟩ := unitOfLetter?_of_find hfind
    simp only [StringUnit.print, hfind, List.cons_append, List.nil_append]
    rw [stringBody, hunit, h]
    exact fun _ _ _ _ _ hu _ => hletter hu
  | none =>
    obtain ⟨a, b, c, d, hdigits, hunit⟩ := unitOfDigits?_unitDigits u
    simp only [StringUnit.print, hfind, hdigits, List.cons_append, List.nil_append]
    rw [stringBody, hunit, h]

theorem stringBody_char {c : Char} {units : List StringUnit} {text : List Char} (hquote : c ≠ '"')
    (hslash : c ≠ '\\') (h : stringBody text = some (units, rest)) :
    stringBody (StringUnit.print (.char c) ++ text) = some (.char c :: units, rest) := by
  rw [StringUnit.print, List.singleton_append, stringBody, h]
  all_goals simp_all

/-- The units of a text are read up to the closing quote. -/
theorem stringBody_ofText (s : String) :
    stringBody ((StringUnit.ofText s).flatMap StringUnit.print ++ '"' :: rest) =
      some (StringUnit.ofText s, rest) := by
  rw [StringUnit.ofText]
  induction s.toList with
  | nil => rfl
  | cons c cs ih =>
    rw [List.map_cons, List.flatMap_cons, List.append_assoc]
    by_cases hc : c = '"' ∨ c = '\\' ∨ c.toNat < 0x20
    · rw [StringUnit.ofChar, if_pos hc]
      exact stringBody_escaped ih
    · rw [StringUnit.ofChar, if_neg hc]
      exact stringBody_char (fun h => hc (.inl h)) (fun h => hc (.inr (.inl h))) ih

/-- The name of a member is read with the colon after it. -/
theorem memberName_printString (name : String) (rest : List Char) :
    memberName (printString (StringUnit.ofText name) ++ ':' :: rest) =
      some (StringUnit.ofText name, rest) := by
  rw [memberName, printString, List.append_assoc, List.cons_append, skipBlanks_cons rfl]
  simp (disch := decide) only [List.singleton_append, stringBody_ofText, skipBlanks_cons]

/-! ## Values -/

/-- A value whose numbers are counts and whose strings and names are texts, at every level. -/
inductive Value.Plain : Value → Prop
  | null : Plain .null
  | bool (b : Bool) : Plain (.bool b)
  | count (n : Nat) : Plain (.ofNat n)
  | text (s : String) : Plain (.ofText s)
  | array {items : List Value} (hitems : ∀ v ∈ items, Plain v) : Plain (.array items)
  | record {members : List (String × Value)} (hmembers : ∀ m ∈ members, Plain m.2) :
      Plain (.record members)

/-- The first character of a written value is not passed over, and does not close an array. -/
theorem Value.Plain.print_eq_cons {v : Value} (h : v.Plain) :
    ∃ c cs, v.print = c :: cs ∧ isBlank c = false ∧ c ≠ ']' := by
  cases h with
  | null => exact ⟨_, _, rfl, by decide⟩
  | bool b => cases b <;> exact ⟨_, _, rfl, by decide⟩
  | count n =>
    obtain ⟨c, run, hrun, hdigit⟩ := toDigits_eq_digit_cons n
    refine ⟨c, run, hrun, isBlank_of_isDigit hdigit, ?_⟩
    rintro rfl
    contradiction
  | text s => exact ⟨_, _, rfl, by decide⟩
  | @array items => cases items <;> exact ⟨_, _, rfl, by decide⟩
  | @record members => cases members <;> exact ⟨_, _, rfl, by decide⟩

/-! ### Items and members -/

section Steps

variable {fuel : Nat} {v : Value} {vs : List Value} {name : String}
  {ms : List (List StringUnit × Value)} {cs cs' : List Char}

theorem items_last (h : value fuel cs = some (v, ']' :: rest)) :
    items (fuel + 1) cs = some ([v], rest) := by
  simp (disch := decide) only [items, h, skipBlanks_cons]

theorem items_next (h : value fuel cs = some (v, ',' :: cs'))
    (hrest : items fuel cs' = some (vs, rest)) : items (fuel + 1) cs = some (v :: vs, rest) := by
  simp (disch := decide) only [items, h, skipBlanks_cons, hrest, Option.map_some]

theorem members_last (h : value fuel cs = some (v, '\x7d' :: rest)) :
    members (fuel + 1) (printString (StringUnit.ofText name) ++ ':' :: cs) =
      some ([(StringUnit.ofText name, v)], rest) := by
  simp (disch := decide) only [members, memberName_printString, h, skipBlanks_cons]

theorem members_next (h : value fuel cs = some (v, ',' :: cs'))
    (hrest : members fuel cs' = some (ms, rest)) :
    members (fuel + 1) (printString (StringUnit.ofText name) ++ ':' :: cs) =
      some ((StringUnit.ofText name, v) :: ms, rest) := by
  simp (disch := decide) only [members, memberName_printString, h, skipBlanks_cons, hrest,
    Option.map_some]

end Steps

/-- The value is read back wherever it was written, by a fuel of two for each character. -/
def Value.ReadsBack (v : Value) : Prop :=
  ∀ fuel rest, 2 * v.print.length ≤ fuel → Stops rest →
    value fuel (v.print ++ rest) = some (v, rest)

/-- The items of an array are read up to the closing bracket. -/
theorem items_print {v : Value} {vs : List Value} (hread : ∀ w ∈ v :: vs, w.ReadsBack) (fuel : Nat)
    (rest : List Char) (hfuel : 2 * (v.print ++ Value.print.printItems vs).length ≤ fuel) :
    items fuel (v.print ++ (Value.print.printItems vs ++ rest)) = some (v :: vs, rest) := by
  have hfirst := hread v List.mem_cons_self
  -- Each item takes one from the fuel and prints a comma or bracket besides itself.
  induction vs generalizing v fuel with
  | nil =>
    simp only [Value.print.printItems, List.length_append, List.length_singleton] at hfuel
    obtain ⟨fuel, rfl⟩ := Nat.exists_eq_add_one_of_ne_zero (show fuel ≠ 0 by omega)
    exact items_last (hfirst fuel _ (by omega) (.bracket rest))
  | cons w vs ih =>
    simp only [Value.print.printItems, List.length_append, List.length_cons] at hfuel
    obtain ⟨fuel, rfl⟩ := Nat.exists_eq_add_one_of_ne_zero (show fuel ≠ 0 by omega)
    rw [Value.print.printItems, List.append_assoc, List.cons_append]
    refine items_next (hfirst fuel _ (by omega) (.comma _)) ?_
    exact ih (fun u hu => hread u (List.mem_cons_of_mem _ hu)) fuel
      (by rw [List.length_append]; omega) (hread w (by simp))

/-- The members of a record, each with the units of its name. -/
def withUnits (ms : List (String × Value)) : List (List StringUnit × Value) :=
  ms.map fun (name, v) => (StringUnit.ofText name, v)

theorem withUnits_cons (m : String × Value) (ms : List (String × Value)) :
    withUnits (m :: ms) = (StringUnit.ofText m.1, m.2) :: withUnits ms := rfl

/-- The members of an object are read up to the closing brace. -/
theorem members_print {m : String × Value} {ms : List (String × Value)}
    (hread : ∀ n ∈ m :: ms, n.2.ReadsBack) (fuel : Nat) (rest : List Char)
    (hfuel : 2 * (m.2.print ++ Value.print.printMembers (withUnits ms)).length ≤ fuel) :
    members fuel (printString (StringUnit.ofText m.1) ++ ':' ::
      (m.2.print ++ (Value.print.printMembers (withUnits ms) ++ rest))) =
      some (withUnits (m :: ms), rest) := by
  have hfirst := hread m List.mem_cons_self
  induction ms generalizing m fuel with
  | nil =>
    simp only [withUnits, List.map_nil, Value.print.printMembers, List.length_append,
      List.length_singleton] at hfuel
    obtain ⟨fuel, rfl⟩ := Nat.exists_eq_add_one_of_ne_zero (show fuel ≠ 0 by omega)
    exact members_last (hfirst fuel _ (by omega) (.brace rest))
  | cons n ms ih =>
    simp only [withUnits_cons, Value.print.printMembers, List.length_append, List.length_cons]
      at hfuel
    obtain ⟨fuel, rfl⟩ := Nat.exists_eq_add_one_of_ne_zero (show fuel ≠ 0 by omega)
    simp only [withUnits_cons, Value.print.printMembers, List.append_assoc, List.cons_append]
    refine members_next (hfirst fuel _ (by omega) (.comma _)) ?_
    exact ih (fun u hu => hread u (List.mem_cons_of_mem _ hu)) fuel
      (by rw [List.length_append]; omega) (hread n (by simp))

/-! ### Values -/

/-- What opens no array and no object is read as a value of no parts. -/
theorem value_eq_scalar {c : Char} (hblank : isBlank c = false) (harray : c ≠ '[')
    (hobject : c ≠ '\x7b') (fuel : Nat) (cs : List Char) :
    value (fuel + 1) (c :: cs) = scalar (c :: cs) := by
  rw [value, skipBlanks_cons hblank]
  split
  · simp_all
  · simp_all
  · rfl

/-- What opens an array and does not close it at once is read item by item. -/
theorem value_eq_items {c : Char} (hblank : isBlank c = false) (hclose : c ≠ ']') (fuel : Nat)
    (cs : List Char) : value (fuel + 1) ('[' :: c :: cs) =
      (items fuel (c :: cs)).map fun (vs, rest) => (.array vs, rest) := by
  rw [value, skipBlanks_cons rfl]
  simp only [skipBlanks_cons hblank]
  split
  · simp_all
  · rfl

/-- What opens an object and has a name next is read member by member. -/
theorem value_eq_members (name : List StringUnit) (fuel : Nat) (cs : List Char) :
    value (fuel + 1) ('\x7b' :: (printString name ++ cs)) =
      (members fuel (printString name ++ cs)).map fun (ms, rest) => (.object ms, rest) := rfl

theorem Value.readsBack_of_scalar {v : Value} {c : Char} {cs : List Char}
    (hprint : v.print = c :: cs) (hblank : isBlank c = false) (harray : c ≠ '[')
    (hobject : c ≠ '\x7b')
    (hscalar : ∀ rest, Stops rest → scalar (v.print ++ rest) = some (v, rest)) : v.ReadsBack := by
  intro fuel rest hfuel hrest
  have hread := hscalar rest hrest
  rw [hprint] at hfuel hread ⊢
  rw [List.length_cons] at hfuel
  obtain ⟨fuel, rfl⟩ := Nat.exists_eq_add_one_of_ne_zero (show fuel ≠ 0 by omega)
  rw [List.cons_append] at hread ⊢
  rw [value_eq_scalar hblank harray hobject, hread]

theorem Value.readsBack_array {items : List Value} (hplain : ∀ v ∈ items, v.Plain)
    (hread : ∀ v ∈ items, v.ReadsBack) : (Value.array items).ReadsBack := by
  intro fuel rest hfuel _
  cases items with
  | nil =>
    simp only [print, List.length_cons] at hfuel
    obtain ⟨fuel, rfl⟩ := Nat.exists_eq_add_one_of_ne_zero (show fuel ≠ 0 by omega)
    rfl
  | cons v vs =>
    simp only [print, List.length_cons, List.length_append] at hfuel
    obtain ⟨fuel, rfl⟩ := Nat.exists_eq_add_one_of_ne_zero (show fuel ≠ 0 by omega)
    obtain ⟨c, cs, hprint, hblank, hclose⟩ := (hplain v List.mem_cons_self).print_eq_cons
    have hitems := items_print hread fuel rest (by rw [List.length_append]; omega)
    rw [print, List.append_assoc, List.cons_append]
    rw [hprint, List.cons_append] at hitems ⊢
    rw [value_eq_items hblank hclose, hitems, Option.map_some]

theorem Value.readsBack_record {members : List (String × Value)}
    (hread : ∀ m ∈ members, m.2.ReadsBack) : (Value.record members).ReadsBack := by
  change (Value.object (withUnits members)).ReadsBack
  intro fuel rest hfuel _
  cases members with
  | nil =>
    simp only [withUnits, List.map_nil, print, List.length_cons] at hfuel
    obtain ⟨fuel, rfl⟩ := Nat.exists_eq_add_one_of_ne_zero (show fuel ≠ 0 by omega)
    rfl
  | cons m ms =>
    simp only [withUnits_cons, print, List.length_cons, List.length_append] at hfuel
    obtain ⟨fuel, rfl⟩ := Nat.exists_eq_add_one_of_ne_zero (show fuel ≠ 0 by omega)
    have hmembers := members_print hread fuel rest (by rw [List.length_append]; omega)
    simp only [withUnits_cons, print, List.append_assoc, List.cons_append] at hmembers ⊢
    rw [value_eq_members, hmembers, Option.map_some]

/-- Plain values are read back. -/
theorem Value.Plain.readsBack {v : Value} (h : v.Plain) : v.ReadsBack := by
  induction h with
  | null => exact readsBack_of_scalar rfl rfl (by decide) (by decide) fun _ _ => rfl
  | bool b =>
    cases b with
    | true => exact readsBack_of_scalar rfl rfl (by decide) (by decide) fun _ _ => rfl
    | false => exact readsBack_of_scalar rfl rfl (by decide) (by decide) fun _ _ => rfl
  | count n =>
    obtain ⟨c, run, hrun, hdigit⟩ := toDigits_eq_digit_cons n
    refine readsBack_of_scalar hrun (isBlank_of_isDigit hdigit) ?_ ?_ fun _ hrest =>
      scalar_toDigits n hrest
    · rintro rfl
      contradiction
    · rintro rfl
      contradiction
  | text s =>
    refine readsBack_of_scalar rfl rfl (by decide) (by decide) fun rest _ => ?_
    rw [ofText, print, printString, List.append_assoc, List.cons_append, List.cons_append,
      List.nil_append, scalar, stringBody_ofText]
    rfl
  | array hplain ih => exact readsBack_array hplain ih
  | record _ ih => exact readsBack_record ih

/-- The text of a plain value is read as that value. -/
theorem parse?_render {v : Value} (h : v.Plain) : parse? v.render = some v := by
  have hlist : v.render.toList = v.print := String.toList_ofList
  have hvalue := h.readsBack (2 * v.print.length + 2) [] (by omega) .nil
  rw [List.append_nil] at hvalue
  simp only [parse?, hlist, hvalue]
  rfl

end ParticleLedger.Json
