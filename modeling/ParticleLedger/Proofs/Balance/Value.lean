import Mathlib.Algebra.BigOperators.Group.Finset.Basic
import Mathlib.Algebra.Order.BigOperators.Group.List
import Mathlib.Algebra.Order.Ring.Int
import ParticleLedger.Proofs.MapSum
import ParticleLedger.Proofs.Reconciler.Analysis

/-!
# What coins are worth

Sums are taken in the integers, where nothing wraps. The value of a map of coins grows by a coin put
in under a fresh name and shrinks by one taken out; a name that is taken out twice shrinks it once.

Main statements: `total_foldl_erase`, `total_foldl_insert` and `total_replay` (what an atom that
fits does to the value of the unspent coins).
-/

namespace ParticleLedger

open Std (ExtTreeMap)

variable {t : TokenRef} {k : ParticleId} {c : Coin} {m : ExtTreeMap ParticleId Coin}

namespace Coin

/-- What a coin is worth in a token. -/
def worth (t : TokenRef) (c : Coin) : Int :=
  if c.token = t then c.quantity.toNat else 0

theorem worth_nonneg : 0 ≤ c.worth t := by
  unfold worth
  split <;> omega

/-- What some coins are worth together, each counted as often as it is listed. -/
def worthAll (t : TokenRef) (coins : List Coin) : Int :=
  (coins.map (worth t)).sum

@[simp] theorem worthAll_nil : worthAll t [] = 0 := rfl

@[simp] theorem worthAll_cons (coins : List Coin) :
    worthAll t (c :: coins) = c.worth t + worthAll t coins := by
  simp [worthAll]

theorem worthAll_nonneg (coins : List Coin) : 0 ≤ worthAll t coins :=
  List.sum_nonneg (by simpa using fun c _ => worth_nonneg)

/-- Only the coins of the token count. -/
theorem worthAll_eq_sum_filter (coins : List Coin) :
    worthAll t coins =
      ((coins.filter (·.token = t)).map fun c => (c.quantity.toNat : Int)).sum := by
  induction coins with
  | nil => rfl
  | cons c rest ih =>
    by_cases h : c.token = t
    · simp [worth, h, ih]
    · simp [worth, h, ih]

end Coin

open Coin (worthAll)

/-- What is stored under a name, as far as it is worth anything in the token. -/
def worthAt (t : TokenRef) (m : ExtTreeMap ParticleId Coin) (k : ParticleId) : Int :=
  m[k]?.elim 0 (Coin.worth t)

/-- What the coins of a map are worth together. -/
def total (t : TokenRef) (m : ExtTreeMap ParticleId Coin) : Int :=
  worthAll t (m.toList.map (·.2))

theorem total_nonneg : 0 ≤ total t m :=
  Coin.worthAll_nonneg _

/-- The entries of a map are listed in the order of their names. -/
theorem toList_eq_of_perm {entries : List (ParticleId × Coin)} (hperm : m.toList.Perm entries)
    (hordered : entries.Pairwise fun x y => compare x.1 y.1 = .lt) : m.toList = entries := by
  refine hperm.eq_of_pairwise ?_ m.ordered_keys_toList hordered
  intro x y _ _ hxy hyx
  rw [Std.OrientedOrd.eq_swap, hyx] at hxy
  contradiction

theorem total_eq_sumOver : total t m = sumOver (Coin.worth t) m := by
  rw [total, worthAll, List.map_map, sumOver]
  rfl

@[simp] theorem total_empty : total t ∅ = 0 := by
  rw [total_eq_sumOver, sumOver_empty]

/-- A coin put in under a fresh name adds what it is worth. -/
theorem total_insert (h : k ∉ m) : total t (m.insert k c) = c.worth t + total t m := by
  rw [total_eq_sumOver, total_eq_sumOver, sumOver_insert _ h]

/-- A name that is taken out takes with it what was stored under it. -/
theorem total_erase : total t (m.erase k) = total t m - worthAt t m k := by
  unfold worthAt
  cases h : m[k]? with
  | none => simp [erase_of_getElem?_none h]
  | some c =>
    rw [total_eq_sumOver, total_eq_sumOver, sumOver_erase _ h]
    simp

theorem worthAt_erase (j : ParticleId) :
    worthAt t (m.erase k) j = if j = k then 0 else worthAt t m j := by
  unfold worthAt
  rw [ExtTreeMap.getElem?_erase]
  by_cases hj : j = k
  · simp [hj]
  · simp [hj, Ne.symm hj]

/-- Names that are taken out one after another take with them what was stored under each of them,
once. -/
theorem total_foldl_erase (ids : List ParticleId) (m : ExtTreeMap ParticleId Coin) :
    total t (ids.foldl (fun m id => m.erase id) m) =
      total t m - ∑ k ∈ ids.toFinset, worthAt t m k := by
  induction ids generalizing m with
  | nil => simp
  | cons id rest ih =>
    have hrest : ∑ k ∈ rest.toFinset, worthAt t (m.erase id) k =
        ∑ k ∈ rest.toFinset.erase id, worthAt t m k := by
      rw [← Finset.sum_erase _ (show worthAt t (m.erase id) id = 0 by simp [worthAt_erase])]
      refine Finset.sum_congr rfl fun k hk => ?_
      rw [worthAt_erase, if_neg (Finset.ne_of_mem_erase hk)]
    rw [List.foldl_cons, ih, total_erase, hrest, List.toFinset_cons,
      ← Finset.insert_erase (Finset.mem_insert_self id rest.toFinset),
      Finset.sum_insert (Finset.notMem_erase _ _), Finset.erase_insert_eq_erase]
    omega

/-- Coins put in under distinct fresh names add what they are worth. -/
theorem total_foldl_insert (coins : List (ParticleId × Coin)) (m : ExtTreeMap ParticleId Coin)
    (hnodup : (coins.map (·.1)).Nodup) (hfresh : ∀ k ∈ coins.map (·.1), k ∉ m) :
    total t (coins.foldl (fun m c => m.insert c.1 c.2) m) =
      total t m + worthAll t (coins.map (·.2)) := by
  induction coins generalizing m with
  | nil => simp
  | cons head rest ih =>
    obtain ⟨hhead, hrest⟩ := List.nodup_cons.1 hnodup
    have hfresh' : ∀ k ∈ rest.map (·.1), k ∉ m.insert head.1 head.2 := by
      intro k hk hmem
      rw [ExtTreeMap.mem_insert, Std.compare_eq_iff_eq] at hmem
      rcases hmem with rfl | hmem
      · exact hhead hk
      · exact hfresh k (List.mem_cons_of_mem _ hk) hmem
    rw [List.foldl_cons, ih _ hrest hfresh', total_insert (hfresh _ List.mem_cons_self),
      List.map_cons, Coin.worthAll_cons]
    omega

/-- An atom that fits takes out the value of the distinct coins that it spends and adds what it
creates. -/
theorem total_replay {scope : Scope} {e : Atom} (hfits : scope.Fits m e) :
    total t (LedgerView.replay scope m e) =
      total t m - ∑ k ∈ (scope.consumed e).toFinset, worthAt t m k +
        worthAll t ((scope.created e).map (·.2)) := by
  rw [LedgerView.replay, total_foldl_insert _ _ hfits.creates_nodup, total_foldl_erase]
  intro k hk
  have habsent : k ∉ m := hfits.creates_absent k hk
  rw [LedgerView.mem_foldl_erase]
  intro hmem
  exact habsent hmem.1

end ParticleLedger
