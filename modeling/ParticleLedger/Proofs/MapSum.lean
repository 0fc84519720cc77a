import Mathlib.Algebra.BigOperators.Group.List.Basic
import Mathlib.Data.List.Nodup
import Std.Data.ExtTreeMap.Lemmas

/-!
# Sums over maps

What the values of a map come to together, each measured by a function. An entry put in under a fresh
name adds its measure, and one that is taken out takes its measure with it; a value that is replaced
exchanges the one for the other.

Main statements: `sumOver_insert`, `sumOver_erase` and `sumOver_modify`.
-/

namespace ParticleLedger

open Std (ExtTreeMap)

variable {α β M : Type} [Ord α] [Std.TransOrd α] [Std.LawfulEqOrd α] [AddCommMonoid M]
  {m : ExtTreeMap α β} {k : α} {c : β}

/-- What the values of a map come to together. -/
def sumOver (f : β → M) (m : ExtTreeMap α β) : M :=
  (m.toList.map fun entry => f entry.2).sum

omit [Std.LawfulEqOrd α] in
@[simp] theorem sumOver_empty (f : β → M) : sumOver f (∅ : ExtTreeMap α β) = 0 := by
  rw [sumOver, ExtTreeMap.toList_eq_nil_iff.2 rfl]
  rfl

theorem nodup_toList (m : ExtTreeMap α β) : m.toList.Nodup := by
  refine m.distinct_keys_toList.imp ?_
  rintro ⟨_, _⟩ ⟨_, _⟩ hne heq
  exact hne (by simp [(Prod.mk.inj heq).1])

theorem toList_insert_perm (h : k ∉ m) : (m.insert k c).toList.Perm ((k, c) :: m.toList) := by
  have hhead : (k, c) ∉ m.toList := fun hmem => h (by
    rw [ExtTreeMap.mem_iff_isSome_getElem?, ExtTreeMap.mem_toList_iff_getElem?_eq_some.1 hmem]
    rfl)
  rw [List.perm_ext_iff_of_nodup (nodup_toList _) (List.nodup_cons.2 ⟨hhead, nodup_toList _⟩)]
  rintro ⟨j, d⟩
  have hnone : m[k]? = none := ExtTreeMap.getElem?_eq_none h
  rw [ExtTreeMap.mem_toList_iff_getElem?_eq_some, ExtTreeMap.getElem?_insert, List.mem_cons,
    ExtTreeMap.mem_toList_iff_getElem?_eq_some, Prod.mk.injEq]
  by_cases hj : k = j
  · subst hj
    simp [hnone, eq_comm]
  · simp [hj, Ne.symm hj]

/-- An entry that is taken out and put back changes nothing. -/
theorem insert_erase_of_getElem? (h : m[k]? = some c) : (m.erase k).insert k c = m := by
  refine ExtTreeMap.ext_getElem? fun j => ?_
  rw [ExtTreeMap.getElem?_insert, ExtTreeMap.getElem?_erase]
  by_cases hj : k = j
  · simp [← hj, h]
  · simp [hj]

theorem erase_of_getElem?_none (h : m[k]? = none) : m.erase k = m := by
  refine ExtTreeMap.ext_getElem? fun j => ?_
  rw [ExtTreeMap.getElem?_erase]
  by_cases hj : k = j
  · simp [← hj, h]
  · simp [hj]

/-- An entry put in under a fresh name adds its measure. -/
theorem sumOver_insert (f : β → M) (h : k ∉ m) :
    sumOver f (m.insert k c) = f c + sumOver f m := by
  have hperm := (toList_insert_perm (c := c) h).map fun entry => f entry.2
  rw [sumOver, hperm.sum_eq, List.map_cons, List.sum_cons, sumOver]

/-- An entry of no measure adds nothing, whether or not it is put in. -/
theorem sumOver_insertIfNew (f : β → M) (hzero : f c = 0) :
    sumOver f (m.insertIfNew k c) = sumOver f m := by
  by_cases h : k ∈ m
  · have hsame : m.insertIfNew k c = m := ExtTreeMap.ext_getElem? fun j => by
      rw [ExtTreeMap.getElem?_insertIfNew, if_neg]
      rw [Std.compare_eq_iff_eq]
      rintro ⟨rfl, hnew⟩
      exact hnew h
    rw [hsame]
  · have hinsert : m.insertIfNew k c = m.insert k c := ExtTreeMap.ext_getElem? fun j => by
      rw [ExtTreeMap.getElem?_insertIfNew, ExtTreeMap.getElem?_insert]
      simp only [h, not_false_eq_true, and_true]
    rw [hinsert, sumOver_insert f h, hzero, zero_add]

/-- An entry that is taken out takes its measure with it. -/
theorem sumOver_erase (f : β → M) (h : m[k]? = some c) :
    sumOver f m = f c + sumOver f (m.erase k) := by
  have hinsert := sumOver_insert (c := c) f (show k ∉ m.erase k by simp)
  rwa [insert_erase_of_getElem? h] at hinsert

/-- A value that is replaced exchanges its measure for that of the new one. -/
theorem sumOver_modify (f : β → M) (g : β → β) (h : m[k]? = some c) :
    f c + sumOver f (m.modify k g) = f (g c) + sumOver f m := by
  have hvalue : (m.modify k g)[k]? = some (g c) := by simp [h]
  have hrest : (m.modify k g).erase k = m.erase k := ExtTreeMap.ext_getElem? fun j => by
    simp only [ExtTreeMap.getElem?_erase, ExtTreeMap.getElem?_modify, Std.compare_eq_iff_eq]
    by_cases hj : k = j <;> simp [hj]
  rw [sumOver_erase f hvalue, hrest, sumOver_erase f h, add_left_comm]

end ParticleLedger
