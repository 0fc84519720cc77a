import ParticleLedger.Bytes
import Std.Data.ExtTreeMap
import Std.Data.ExtTreeSet

/-!
# Orders read off keys

Names, keys and texts are ordered by their bytes. An order read off a key is again a total order,
and it tells unequal values apart as soon as the key determines its owner.
-/

namespace ParticleLedger

open Std (TransCmp TransOrd LawfulEqCmp LawfulEqOrd)

/-- An order read off a key is an order. -/
theorem transCmp_compareOn {α β : Type} [Ord β] [TransOrd β] (key : α → β) :
    TransCmp (compareOn key) :=
  inferInstance

/-- An order read off a key that determines its owner tells unequal values apart. -/
theorem lawfulEqCmp_compareOn {α β : Type} [Ord β] [LawfulEqOrd β] {key : α → β}
    (h : ∀ {a b}, key a = key b → a = b) : LawfulEqCmp (compareOn key) where
  compare_self {a} := LawfulEqCmp.toReflCmp.compare_self (a := key a)
  eq_of_compare hab := h (LawfulEqCmp.eq_of_compare hab)

/-- The order of texts by their UTF-8 bytes. -/
def compareText : String → String → Ordering :=
  compareOn Bytes.utf8

instance : TransCmp compareText := transCmp_compareOn _
instance : LawfulEqCmp compareText := lawfulEqCmp_compareOn Bytes.utf8_injective

theorem compareText_eq_iff {a b : String} : compareText a b = .eq ↔ a = b :=
  Std.LawfulEqCmp.compare_eq_iff_eq

end ParticleLedger
