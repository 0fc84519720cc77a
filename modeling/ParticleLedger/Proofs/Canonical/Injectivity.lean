import ParticleLedger.Canonical.Encoding

/-!
# Reading canonical bytes back

Lengths and counts are written in four bytes. As long as none of them is beyond that range, canonical
bytes say where they end: whatever follows, the value that was written can be told from them. Beyond
it a length starts again at zero, and there are different values with the same bytes.

Main statements: `Value.encode_append_inj` (what follows does not matter), `Value.encode_injective`
and `Value.distinct_values_share_bytes`.
-/

namespace ParticleLedger.Canonical

/-- How many lengths or counts can be told apart in four bytes. -/
def countLimit : Nat := 4294967296

theorem capacity_count : Bytes.capacity 4 = countLimit := rfl

/-! ## Counts and what follows them -/

section Counts

variable {m n : Nat} {bs cs r s : Bytes}

theorem count_append_inj (hm : m < countLimit) (hn : n < countLimit)
    (h : count m ++ r = count n ++ s) : m = n ∧ r = s := by
  have hwidth : (count m).length = (count n).length := by simp [count]
  obtain ⟨hcount, hrest⟩ := List.append_inj h hwidth
  rw [← capacity_count] at hm hn
  exact ⟨Bytes.bigEndian_injective hm hn hcount, hrest⟩

theorem counted_append_inj (hb : bs.length < countLimit) (hc : cs.length < countLimit)
    (h : counted bs ++ r = counted cs ++ s) : bs = cs ∧ r = s := by
  simp only [counted, List.append_assoc] at h
  obtain ⟨hlen, hrest⟩ := count_append_inj hb hc h
  exact List.append_inj hrest hlen

/-- If the bytes of each item end where they say, so do those of as many items one after another. -/
theorem flatMap_append_inj {α : Type} {f : α → Bytes} {xs ys : List α}
    (hf : ∀ x ∈ xs, ∀ y ∈ ys, ∀ r s, f x ++ r = f y ++ s → x = y ∧ r = s)
    (hlen : xs.length = ys.length) (h : xs.flatMap f ++ r = ys.flatMap f ++ s) :
    xs = ys ∧ r = s := by
  induction xs generalizing ys with
  | nil =>
    obtain rfl : ys = [] := List.length_eq_zero_iff.1 hlen.symm
    exact ⟨rfl, h⟩
  | cons x xs ih =>
    cases ys with
    | nil => contradiction
    | cons y ys =>
      simp only [List.flatMap_cons, List.append_assoc] at h
      obtain ⟨rfl, hrest⟩ := hf x List.mem_cons_self y List.mem_cons_self _ _ h
      have htail : ∀ x ∈ xs, ∀ y ∈ ys, ∀ r s, f x ++ r = f y ++ s → x = y ∧ r = s :=
        fun x hx y hy => hf x (List.mem_cons_of_mem _ hx) y (List.mem_cons_of_mem _ hy)
      obtain ⟨rfl, hend⟩ := ih htail (Nat.succ.inj hlen) hrest
      exact ⟨rfl, hend⟩

end Counts

namespace Value

/-! ## Values within the range of counts -/

/-- Nothing in the value is too long to be counted in four bytes: no byte string, no text, no name,
no list and no object. -/
inductive WithinRange : Value → Prop
  | none : WithinRange .none
  | bool {b : Bool} : WithinRange (.bool b)
  | number {n : UInt64} : WithinRange (.number n)
  | bytes {bs : Bytes} (hlen : bs.length < countLimit) : WithinRange (.bytes bs)
  | text {s : String} (hlen : (Bytes.utf8 s).length < countLimit) : WithinRange (.text s)
  | list {items : List Value} (hlen : items.length < countLimit)
      (hitems : ∀ v ∈ items, WithinRange v) : WithinRange (.list items)
  | object {fields : List (String × Value)} (hlen : fields.length < countLimit)
      (hnames : ∀ f ∈ fields, (Bytes.utf8 f.1).length < countLimit)
      (hvalues : ∀ f ∈ fields, WithinRange f.2) : WithinRange (.object fields)

variable {v w : Value} {r s : Bytes}

/-- Whatever follows the bytes of a value, they determine the value and where it ends. -/
theorem encode_append_inj (hv : v.WithinRange) (hw : w.WithinRange)
    (h : v.encode ++ r = w.encode ++ s) : v = w ∧ r = s := by
  -- Values of different kinds differ in the first byte; the cases left are those of one kind.
  induction hv generalizing w r s with
  | none =>
    cases hw with
    | none => simpa using h
    | _ => simp at h
  | @bool b =>
    cases hw with
    | @bool c =>
      obtain ⟨hbit, hrest⟩ : (if b then (1 : UInt8) else 0) = (if c then 1 else 0) ∧ r = s := by
        simpa using h
      cases b <;> cases c <;> simp_all
    | _ => simp at h
  | @number m =>
    cases hw with
    | @number n =>
      simp only [encode_number, List.cons_append, List.cons.injEq, true_and] at h
      obtain ⟨hdigits, hrest⟩ := List.append_inj h (by simp)
      have hvalue := Bytes.bigEndian_injective m.toNat_lt n.toNat_lt hdigits
      exact ⟨congrArg number (UInt64.toNat_inj.1 hvalue), hrest⟩
    | _ => simp at h
  | bytes hlen =>
    cases hw with
    | bytes hlen' =>
      simp only [encode_bytes, List.cons_append, List.cons.injEq, true_and] at h
      obtain ⟨rfl, hrest⟩ := counted_append_inj hlen hlen' h
      exact ⟨rfl, hrest⟩
    | _ => simp at h
  | text hlen =>
    cases hw with
    | text hlen' =>
      simp only [encode_text, List.cons_append, List.cons.injEq, true_and] at h
      obtain ⟨hbytes, hrest⟩ := counted_append_inj hlen hlen' h
      exact ⟨congrArg text (Bytes.utf8_injective hbytes), hrest⟩
    | _ => simp at h
  | list hlen hitems ih =>
    cases hw with
    | list hlen' hitems' =>
      simp only [encode_list, List.cons_append, List.cons.injEq, true_and, List.append_assoc] at h
      obtain ⟨hsame, hrest⟩ := count_append_inj hlen hlen' h
      obtain ⟨rfl, hend⟩ := flatMap_append_inj
        (fun x hx y hy r s hxy => ih x hx (hitems' y hy) hxy) hsame hrest
      exact ⟨rfl, hend⟩
    | _ => simp at h
  | @object fields hlen hnames hvalues ih =>
    cases hw with
    | @object others hlen' hnames' hvalues' =>
      simp only [encode_object, List.cons_append, List.cons.injEq, true_and, List.append_assoc] at h
      obtain ⟨hsame, hrest⟩ := count_append_inj hlen hlen' h
      have hfield : ∀ f ∈ fields, ∀ g ∈ others, ∀ r s : Bytes,
          (counted (Bytes.utf8 f.1) ++ f.2.encode) ++ r =
            (counted (Bytes.utf8 g.1) ++ g.2.encode) ++ s → f = g ∧ r = s := by
        intro f hf g hg r s hfg
        rw [List.append_assoc, List.append_assoc] at hfg
        obtain ⟨hname, hvalue⟩ := counted_append_inj (hnames f hf) (hnames' g hg) hfg
        obtain ⟨hsame, hend⟩ := ih f hf (hvalues' g hg) hvalue
        exact ⟨Prod.ext (Bytes.utf8_injective hname) hsame, hend⟩
      obtain ⟨rfl, hend⟩ := flatMap_append_inj hfield hsame hrest
      exact ⟨rfl, hend⟩
    | _ => simp at h

/-- Values within the range of counts have the same bytes only if they are the same, and the bytes of
one are never the beginning of those of another. -/
theorem encode_injective (hv : v.WithinRange) (hw : w.WithinRange) :
    (v.encode = w.encode ↔ v = w) ∧ (v.encode <+: w.encode ↔ v = w) := by
  have hprefix : v.encode <+: w.encode → v = w := by
    rintro ⟨rest, hrest⟩
    have happend : v.encode ++ rest = w.encode ++ [] := by rw [hrest, List.append_nil]
    exact (encode_append_inj hv hw happend).1
  constructor
  · constructor
    · intro h
      exact hprefix (h ▸ List.prefix_rfl)
    · rintro rfl
      rfl
  · constructor
    · exact hprefix
    · rintro rfl
      exact List.prefix_rfl

/-- A list of a number and a list of the same number and nothing else are told apart. -/
theorem encode_injective_number :
    (list [number 1]).WithinRange ∧ (list [number 1, none]).WithinRange ∧
      (list [number 1]).encode ≠ (list [number 1, none]).encode := by
  have hshort : (list [number 1]).WithinRange :=
    .list (by decide) fun v hv => by
      obtain rfl := List.mem_singleton.1 hv
      exact .number
  have hlong : (list [number 1, none]).WithinRange :=
    .list (by decide) fun v hv => by
      rcases List.mem_cons.1 hv with rfl | hv
      · exact .number
      · obtain rfl := List.mem_singleton.1 hv
        exact .none
  refine ⟨hshort, hlong, fun h => ?_⟩
  have hsame := (encode_injective hshort hlong).1.1 h
  simp at hsame

/-! ## Beyond the range -/

/-- A text repeated. -/
def repeated (n : Nat) (s : String) : String :=
  String.join (List.replicate n s)

theorem utf8_repeated (n : Nat) (s : String) :
    Bytes.utf8 (repeated n s) = (List.replicate n (Bytes.utf8 s)).flatten := by
  induction n with
  | zero => rfl
  | succ n ih =>
    rw [repeated] at ih ⊢
    rw [List.replicate_succ, String.join_cons, List.replicate_succ, List.flatten_cons, ← ih]
    simp [Bytes.utf8]

/-- Pieces of two parts each, and a front part at the end: the parts can be paired the other way
round, with the front part at the start. -/
theorem flatten_replicate_append (n : Nat) (front back : Bytes) :
    (List.replicate n (front ++ back)).flatten ++ front =
      front ++ (List.replicate n (back ++ front)).flatten := by
  induction n with
  | zero => simp
  | succ n ih => simp only [List.replicate_succ, List.flatten_cons, List.append_assoc, ih]

/-- A text whose length counts as nothing looks like an empty text before its own bytes. -/
theorem encode_text_of_count {s : String} (h : count (Bytes.utf8 s).length = count 0) :
    (text s).encode = (text "").encode ++ Bytes.utf8 s := by
  simp only [encode_text, counted, h]
  rfl

/-- A text that starts and ends like an empty text can change places with an empty text, if it is so
long that its length counts as nothing. -/
theorem encode_list_swap {n : Nat} (hn : count (n * 8) = count 0) :
    (list [text (repeated n "\x04\x00\x00\x00\x00aaa"), text ""]).encode =
      (list [text "", text (repeated n "aaa\x04\x00\x00\x00\x00")]).encode := by
  have hlength : ∀ s : String, (Bytes.utf8 s).length = 8 →
      count (Bytes.utf8 (repeated n s)).length = count 0 := by
    intro s hs
    rw [utf8_repeated, List.length_flatten, List.map_replicate, List.sum_replicate_nat, hs, hn]
  have hfront : Bytes.utf8 "\x04\x00\x00\x00\x00aaa" = (text "").encode ++ [97, 97, 97] := by
    decide
  have hback : Bytes.utf8 "aaa\x04\x00\x00\x00\x00" = [97, 97, 97] ++ (text "").encode := by
    decide
  have hpaired := flatten_replicate_append n (text "").encode [97, 97, 97]
  rw [← hfront, ← hback, ← utf8_repeated, ← utf8_repeated] at hpaired
  have hlong := encode_text_of_count (hlength "\x04\x00\x00\x00\x00aaa" (by decide))
  have hrotated := encode_text_of_count (hlength "aaa\x04\x00\x00\x00\x00" (by decide))
  simp only [encode_list, List.flatMap_cons, List.flatMap_nil, List.append_nil, hlong, hrotated,
    List.append_assoc, hpaired]
  rfl

/-- A text of `2 ^ 32` bytes, whose length is written as zero, and an empty text: the bytes do not
say which of the two comes first. -/
theorem distinct_values_share_bytes :
    let long := text (repeated 536870912 "\x04\x00\x00\x00\x00aaa")
    let rotated := text (repeated 536870912 "aaa\x04\x00\x00\x00\x00")
    list [long, text ""] ≠ list [text "", rotated] ∧
      (list [long, text ""]).encode = (list [text "", rotated]).encode := by
  intro long rotated
  refine ⟨fun h => ?_, encode_list_swap (by decide)⟩
  have hempty : repeated 536870912 "\x04\x00\x00\x00\x00aaa" = "" :=
    text.inj (List.cons.inj (list.inj h)).1
  have hlength := congrArg (fun s => (Bytes.utf8 s).length) hempty
  simp only [utf8_repeated, List.length_flatten, List.map_replicate, List.sum_replicate_nat]
    at hlength
  exact absurd hlength (by decide)

end Value

end ParticleLedger.Canonical
