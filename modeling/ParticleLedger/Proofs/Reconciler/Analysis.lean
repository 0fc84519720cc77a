import Mathlib.Data.List.Basic
import Mathlib.Tactic.Tauto
import ParticleLedger.Reconciler.Basic

/-!
# What one analysis can do, and what a run keeps

`LedgerView.analyse` has four outcomes. For each of them this module says once, and completely, when
it arises and what the view is afterwards; later proofs cite these lemmas and never open the
definition. A property that every analysis keeps is a `WorkInvariant`, and `WorkInvariant.run`
carries it through a whole run, including the place where a violation stops it.

Main statements: `decides_iff` (all that an analysis can do), `mem_replay`, `getElem?_release` and
`WorkInvariant.run`.
-/

namespace ParticleLedger

open Std (ExtTreeMap ExtTreeSet)

/-! ## What an atom spends and creates in a scope -/

namespace Scope

variable {scope : Scope} {a : Atom} {k : ParticleId} {c : Coin}

/-- The names of the relevant coins that an atom creates, in order. -/
def creates (scope : Scope) (a : Atom) : List ParticleId :=
  (scope.created a).map (·.1)

theorem mem_creates : k ∈ scope.creates a ↔ ∃ c, (k, c) ∈ scope.created a := by
  simp [creates]

/-- The atom fits the unspent coins: all that it spends is there, and nothing that it creates is
there already or is created twice. -/
structure Fits (scope : Scope) (coins : ExtTreeMap ParticleId Coin) (a : Atom) : Prop where
  spends_present : ∀ k ∈ scope.consumed a, k ∈ coins
  creates_absent : ∀ k ∈ scope.creates a, k ∉ coins
  creates_nodup : (scope.creates a).Nodup

/-- An atom that fits does not create what it spends. -/
theorem Fits.not_creates {coins : ExtTreeMap ParticleId Coin} (h : scope.Fits coins a)
    (hk : k ∈ scope.consumed a) : k ∉ scope.creates a :=
  fun hc => h.creates_absent k hc (h.spends_present k hk)

end Scope

namespace LedgerView

variable {scope : Scope} {s s' : LedgerView} {a b : Atom} {k : ParticleId} {c : Coin}

/-! ## The first missing coin -/

theorem missing?_eq_none_iff :
    s.missing? scope a = none ↔ ∀ k ∈ scope.consumed a, k ∈ s.unconsumed := by
  simp [missing?]

/-- The coin that an atom waits for is the first of those it spends that is not there. -/
theorem missing?_eq_some_iff :
    s.missing? scope a = some k ↔ k ∉ s.unconsumed ∧
      ∃ before after, scope.consumed a = before ++ k :: after ∧ ∀ j ∈ before, j ∈ s.unconsumed := by
  simp [missing?, List.find?_eq_some_iff_append, Bool.eq_false_iff]

theorem mem_consumed_of_missing? (h : s.missing? scope a = some k) : k ∈ scope.consumed a := by
  obtain ⟨-, before, after, heq, -⟩ := missing?_eq_some_iff.1 h
  simp [heq]

theorem not_mem_of_missing? (h : s.missing? scope a = some k) : k ∉ s.unconsumed :=
  (missing?_eq_some_iff.1 h).1

/-! ## Coins that are there already -/

theorem recreated?_eq_none_iff {seen ids : List ParticleId} :
    s.recreated? seen ids = none ↔
      (∀ k ∈ ids, k ∉ s.unconsumed ∧ k ∉ seen) ∧ ids.Nodup := by
  induction ids generalizing seen with
  | nil => simp [recreated?]
  | cons id rest ih =>
    simp only [recreated?, Bool.or_eq_true, List.contains_iff_mem,
      ← ExtTreeMap.mem_iff_contains, List.forall_mem_cons, List.nodup_cons]
    by_cases h : id ∈ s.unconsumed ∨ id ∈ seen
    · rw [if_pos h]
      constructor
      · intro hnone
        contradiction
      · rintro ⟨⟨⟨hu, hs⟩, -⟩, -⟩
        exact absurd h (not_or.2 ⟨hu, hs⟩)
    · rw [if_neg h, ih]
      constructor
      · rintro ⟨hrest, hnodup⟩
        have hseen : ∀ k ∈ rest, k ∉ seen := fun k hk hs =>
          (hrest k hk).2 (List.mem_cons_of_mem _ hs)
        have hid : id ∉ rest := fun hmem => (hrest id hmem).2 List.mem_cons_self
        exact ⟨⟨not_or.1 h, fun k hk => ⟨(hrest k hk).1, hseen k hk⟩⟩, hid, hnodup⟩
      · rintro ⟨⟨-, hrest⟩, hid, hnodup⟩
        refine ⟨fun k hk => ⟨(hrest k hk).1, ?_⟩, hnodup⟩
        rw [List.mem_cons, not_or]
        exact ⟨fun heq => hid (heq ▸ hk), (hrest k hk).2⟩

/-! ## Coins after an atom -/

/-- Coins that are taken out one after another are gone, and the others stay. -/
theorem getElem?_foldl_erase (ids : List ParticleId) (m : ExtTreeMap ParticleId Coin) :
    (ids.foldl (fun m id => m.erase id) m)[k]? = if k ∈ ids then none else m[k]? := by
  induction ids generalizing m with
  | nil => simp
  | cons id rest ih =>
    rw [List.foldl_cons, ih, ExtTreeMap.getElem?_erase]
    by_cases hrest : k ∈ rest
    · simp [hrest]
    · by_cases hid : id = k
      · simp [hid]
      · simp [hrest, hid, Ne.symm hid]

theorem mem_foldl_erase (ids : List ParticleId) (m : ExtTreeMap ParticleId Coin) :
    k ∈ ids.foldl (fun m id => m.erase id) m ↔ k ∈ m ∧ k ∉ ids := by
  rw [ExtTreeMap.mem_iff_isSome_getElem?, getElem?_foldl_erase, ExtTreeMap.mem_iff_isSome_getElem?]
  by_cases hk : k ∈ ids <;> simp [hk]

/-- Coins that are put in one after another are there, and the others stay. -/
theorem mem_foldl_insert (coins : List (ParticleId × Coin)) (m : ExtTreeMap ParticleId Coin) :
    k ∈ coins.foldl (fun m c => m.insert c.1 c.2) m ↔ k ∈ coins.map (·.1) ∨ k ∈ m := by
  induction coins generalizing m with
  | nil => simp
  | cons head rest ih =>
    rw [List.foldl_cons, ih, ExtTreeMap.mem_insert, Std.compare_eq_iff_eq, List.map_cons,
      List.mem_cons, eq_comm]
    tauto

/-- What is there under a name after some coins were put in is one of them, or was there before and
has not been replaced. -/
theorem getElem?_foldl_insert (coins : List (ParticleId × Coin)) (m : ExtTreeMap ParticleId Coin)
    (h : (coins.foldl (fun m c => m.insert c.1 c.2) m)[k]? = some c) :
    (k, c) ∈ coins ∨ k ∉ coins.map (·.1) ∧ m[k]? = some c := by
  induction coins generalizing m with
  | nil => exact .inr ⟨by simp, h⟩
  | cons head rest ih =>
    rcases ih _ h with hmem | ⟨hnot, heq⟩
    · exact .inl (List.mem_cons_of_mem _ hmem)
    · simp only [ExtTreeMap.getElem?_insert, Std.compare_eq_iff_eq] at heq
      by_cases hid : head.1 = k
      · rw [if_pos hid] at heq
        obtain rfl := Option.some_inj.1 heq
        subst hid
        exact .inl List.mem_cons_self
      · rw [if_neg hid] at heq
        refine .inr ⟨?_, heq⟩
        rw [List.map_cons, List.mem_cons, not_or]
        exact ⟨Ne.symm hid, hnot⟩

theorem mem_replay {m : ExtTreeMap ParticleId Coin} :
    k ∈ replay scope m a ↔ k ∈ scope.creates a ∨ k ∈ m ∧ k ∉ scope.consumed a := by
  rw [replay, mem_foldl_insert, mem_foldl_erase, Scope.creates]

/-- What is there after an atom was created by it, or was there before and is not spent by it. -/
theorem getElem?_replay {m : ExtTreeMap ParticleId Coin} (h : (replay scope m a)[k]? = some c) :
    (k, c) ∈ scope.created a ∨
      k ∉ scope.creates a ∧ k ∉ scope.consumed a ∧ m[k]? = some c := by
  rcases getElem?_foldl_insert _ _ h with hmem | ⟨hnot, heq⟩
  · exact .inl hmem
  · rw [getElem?_foldl_erase] at heq
    by_cases hk : k ∈ scope.consumed a
    · rw [if_pos hk] at heq
      contradiction
    · rw [if_neg hk] at heq
      exact .inr ⟨hnot, hk, heq⟩

/-! ## Atoms that no longer wait -/

/-- Nothing waits any longer for the listed coins, and all else stays. -/
theorem getElem?_release (pending : ExtTreeMap ParticleId Atom) (ids : List ParticleId) :
    (release pending ids).1[k]? = if k ∈ ids then none else pending[k]? := by
  induction ids generalizing pending with
  | nil => simp [release]
  | cons id rest ih =>
    simp only [release]
    split
    · next hnone =>
      rw [ih]
      by_cases hid : k = id
      · simp [hid, hnone]
      · simp [hid]
    · rw [ih, ExtTreeMap.getElem?_erase]
      by_cases hrest : k ∈ rest
      · simp [hrest]
      · by_cases hid : id = k
        · simp [hid]
        · simp [hrest, hid, Ne.symm hid]

/-- What still waits is what waited before and was not released. -/
theorem getElem?_release_eq_some_iff {pending : ExtTreeMap ParticleId Atom} {ids : List ParticleId} :
    (release pending ids).1[k]? = some b ↔ k ∉ ids ∧ pending[k]? = some b := by
  rw [getElem?_release]
  by_cases hk : k ∈ ids <;> simp [hk]

/-- The released atoms are those that waited for one of the listed coins. -/
theorem mem_release (pending : ExtTreeMap ParticleId Atom) (ids : List ParticleId) :
    b ∈ (release pending ids).2 ↔ ∃ k ∈ ids, pending[k]? = some b := by
  induction ids generalizing pending with
  | nil => simp [release]
  | cons id rest ih =>
    simp only [release, List.mem_cons, exists_eq_or_imp]
    split
    · next h => simp [ih, h]
    · next waiting h =>
      simp only [List.mem_cons, ih, ExtTreeMap.getElem?_erase, Std.compare_eq_iff_eq]
      constructor
      · rintro (rfl | ⟨k, hk, hb⟩)
        · exact .inl h
        · by_cases hid : id = k
          · rw [if_pos hid] at hb
            contradiction
          · rw [if_neg hid] at hb
            exact .inr ⟨k, hk, hb⟩
      · rintro (hb | ⟨k, hk, hb⟩)
        · rw [h] at hb
          exact .inl (Option.some_inj.1 hb).symm
        · by_cases hid : id = k
          · rw [← hid, h] at hb
            exact .inl (Option.some_inj.1 hb).symm
          · exact .inr ⟨k, hk, by rwa [if_neg hid]⟩

/-- Released are the atoms that wait for the listed coins, in the order of the list. -/
theorem release_of_nodup {pending : ExtTreeMap ParticleId Atom} {ids : List ParticleId}
    (h : ids.Nodup) : (release pending ids).2 = ids.filterMap fun k => pending[k]? := by
  induction ids generalizing pending with
  | nil => rfl
  | cons id rest ih =>
    obtain ⟨hid, hrest⟩ := List.nodup_cons.1 h
    -- What is taken out for one coin does not wait for one of the others.
    have herase : ∀ k ∈ rest, (pending.erase id)[k]? = pending[k]? := fun k hk => by
      rw [ExtTreeMap.getElem?_erase, if_neg]
      rw [Std.compare_eq_iff_eq]
      rintro rfl
      exact hid hk
    simp only [release]
    split
    · next hnone => rw [ih hrest, List.filterMap_cons_none hnone]
    · next waiting hsome =>
      rw [List.filterMap_cons_some hsome, ih hrest, List.filterMap_congr herase]

/-! ## The four outcomes -/

/-- What becomes of an atom, and when. -/
inductive Decides (scope : Scope) (s : LedgerView) (a : Atom) : Analysis → Prop
  | known (h : a.id ∈ s.applied) : Decides scope s a .known
  | waits {k : ParticleId} (hnew : a.id ∉ s.applied) (hmiss : s.missing? scope a = some k)
      (hfree : s.pending[k]? = none) :
      Decides scope s a (.blocked { s with pending := s.pending.insert k a })
  | waitsAlready {k : ParticleId} {b : Atom} (hnew : a.id ∉ s.applied)
      (hmiss : s.missing? scope a = some k) (hb : s.pending[k]? = some b) (hid : b.id = a.id) :
      Decides scope s a (.blocked s)
  | contends {k : ParticleId} {b : Atom} (hnew : a.id ∉ s.applied)
      (hmiss : s.missing? scope a = some k) (hb : s.pending[k]? = some b) (hid : b.id ≠ a.id) :
      Decides scope s a (.refused (.contendedParticle b.id a.id k))
  | recreates {k : ParticleId} (hnew : a.id ∉ s.applied) (hmiss : s.missing? scope a = none)
      (hcreate : s.recreated? [] (scope.creates a) = some k) :
      Decides scope s a (.refused (.recreatedParticle a.id k))
  | fits (hnew : a.id ∉ s.applied) (hfits : scope.Fits s.unconsumed a) :
      Decides scope s a
        (.applied ⟨replay scope s.unconsumed a, (release s.pending (scope.creates a)).1,
            s.applied.insert a.id⟩
          (release s.pending (scope.creates a)).2)

/-- An atom that misses nothing and creates nothing a second time fits. -/
theorem fits_iff : scope.Fits s.unconsumed a ↔
    s.missing? scope a = none ∧ s.recreated? [] (scope.creates a) = none := by
  rw [missing?_eq_none_iff, recreated?_eq_none_iff]
  constructor
  · intro h
    exact ⟨h.spends_present, fun k hk => ⟨h.creates_absent k hk, List.not_mem_nil⟩, h.creates_nodup⟩
  · rintro ⟨hpresent, habsent, hnodup⟩
    exact ⟨hpresent, fun k hk => (habsent k hk).1, hnodup⟩

theorem decides_analyse (scope : Scope) (s : LedgerView) (a : Atom) :
    Decides scope s a (s.analyse scope a) := by
  simp only [analyse, ← ExtTreeSet.mem_iff_contains]
  by_cases hknown : a.id ∈ s.applied
  · rw [if_pos hknown]
    exact .known hknown
  · rw [if_neg hknown]
    cases hmiss : s.missing? scope a with
    | some k =>
      simp only [block]
      cases hb : s.pending[k]? with
      | none => exact .waits hknown hmiss hb
      | some b =>
        by_cases hid : b.id = a.id
        · simp only [if_pos hid]
          exact .waitsAlready hknown hmiss hb hid
        · simp only [if_neg hid]
          exact .contends hknown hmiss hb hid
    | none =>
      simp only [apply]
      cases hcreate : s.recreated? [] (scope.creates a) with
      | some k =>
        rw [Scope.creates] at hcreate
        simp only [hcreate]
        exact .recreates hknown hmiss hcreate
      | none =>
        have hfits : scope.Fits s.unconsumed a := fits_iff.2 ⟨hmiss, hcreate⟩
        rw [Scope.creates] at hcreate
        simp only [hcreate]
        exact .fits hknown hfits

/-- One of the cases holds, and only one. -/
theorem decides_iff {outcome : Analysis} :
    Decides scope s a outcome ↔ s.analyse scope a = outcome := by
  constructor
  · intro h
    have hactual := decides_analyse scope s a
    generalize s.analyse scope a = actual at hactual
    -- Two different cases disagree on something they both look at.
    cases h <;> cases hactual <;> first | rfl | simp_all [fits_iff]
  · rintro rfl
    exact decides_analyse scope s a

theorem analyse_eq_known_iff : s.analyse scope a = .known ↔ a.id ∈ s.applied := by
  rw [← decides_iff]
  constructor
  · rintro ⟨h⟩
    exact h
  · exact .known

/-- A blocked atom waits for its first missing coin, and nothing else changes. -/
theorem analyse_eq_blocked (h : s.analyse scope a = .blocked s') :
    a.id ∉ s.applied ∧ ∃ k, s.missing? scope a = some k ∧
      ((s.pending[k]? = none ∧ s' = { s with pending := s.pending.insert k a }) ∨
        ∃ b, s.pending[k]? = some b ∧ b.id = a.id ∧ s' = s) := by
  cases decides_iff.2 h with
  | waits hnew hmiss hfree => exact ⟨hnew, _, hmiss, .inl ⟨hfree, rfl⟩⟩
  | waitsAlready hnew hmiss hb hid => exact ⟨hnew, _, hmiss, .inr ⟨_, hb, hid, rfl⟩⟩

/-- An atom is refused if another one waits for the coin that it misses, or if it creates a coin
that is there already. -/
theorem analyse_eq_refused {cause : Violation} (h : s.analyse scope a = .refused cause) :
    a.id ∉ s.applied ∧
      ((∃ k b, s.missing? scope a = some k ∧ s.pending[k]? = some b ∧ b.id ≠ a.id ∧
          cause = .contendedParticle b.id a.id k) ∨
        (s.missing? scope a = none ∧ ∃ k, s.recreated? [] (scope.creates a) = some k ∧
          cause = .recreatedParticle a.id k)) := by
  cases decides_iff.2 h with
  | contends hnew hmiss hb hid => exact ⟨hnew, .inl ⟨_, _, hmiss, hb, hid, rfl⟩⟩
  | recreates hnew hmiss hcreate => exact ⟨hnew, .inr ⟨hmiss, _, hcreate, rfl⟩⟩

/-- An applied atom is new and fits the unspent coins; afterwards it is known, its coins are spent
and created, and what waited for them no longer waits. -/
theorem analyse_eq_applied {unblocked : List Atom} (h : s.analyse scope a = .applied s' unblocked) :
    a.id ∉ s.applied ∧ scope.Fits s.unconsumed a ∧
      s' = ⟨replay scope s.unconsumed a, (release s.pending (scope.creates a)).1,
        s.applied.insert a.id⟩ ∧
      unblocked = (release s.pending (scope.creates a)).2 := by
  cases decides_iff.2 h with
  | fits hnew hfits => exact ⟨hnew, hfits, rfl, rfl⟩

/-- A new atom that fits is applied. -/
theorem analyse_of_fits (hnew : a.id ∉ s.applied) (hfits : scope.Fits s.unconsumed a) :
    s.analyse scope a =
      .applied ⟨replay scope s.unconsumed a, (release s.pending (scope.creates a)).1,
          s.applied.insert a.id⟩
        (release s.pending (scope.creates a)).2 :=
  decides_iff.1 (.fits hnew hfits)

/-! ## One step of a run -/

theorem run_of_known (h : s.analyse scope a = .known) :
    s.run scope (a :: work) = s.run scope work := by
  rw [run]
  split <;> simp_all

theorem run_of_refused {work : List Atom} {cause : Violation}
    (h : s.analyse scope a = .refused cause) :
    s.run scope (a :: work) = ⟨s, [], some cause⟩ := by
  rw [run]
  split <;> simp_all

theorem run_of_applied {work unblocked : List Atom}
    (h : s.analyse scope a = .applied s' unblocked) :
    s.run scope (a :: work) =
      { s'.run scope (unblocked ++ work) with
        emitted := a :: (s'.run scope (unblocked ++ work)).emitted } := by
  rw [run]
  split <;> simp_all

theorem run_of_blocked {work : List Atom} (h : s.analyse scope a = .blocked s') :
    s.run scope (a :: work) = s'.run scope work := by
  rw [run]
  split <;> simp_all

/-- A new atom that misses a coin for which nothing waits is put there, and nothing is passed on. -/
theorem accept_of_missing (hnew : a.id ∉ s.applied) (hmiss : s.missing? scope a = some k)
    (hfree : s.pending[k]? = none) :
    s.accept scope a = ⟨{ s with pending := s.pending.insert k a }, [], none⟩ := by
  rw [accept, run_of_blocked (decides_iff.1 (.waits hnew hmiss hfree))]
  simp [run]

/-- Nothing is released if nothing waits for the listed coins. -/
theorem release_of_unawaited {pending : ExtTreeMap ParticleId Atom} {ids : List ParticleId}
    (h : ∀ k ∈ ids, k ∉ pending) : release pending ids = (pending, []) := by
  induction ids with
  | nil => rfl
  | cons id rest ih =>
    have hnone : pending[id]? = none := ExtTreeMap.getElem?_eq_none (h id List.mem_cons_self)
    simp only [release, hnone]
    exact ih fun k hk => h k (List.mem_cons_of_mem _ hk)

/-- A new atom that fits is passed on alone if nothing waits for what it creates. -/
theorem accept_of_unawaited (hnew : a.id ∉ s.applied) (hfits : scope.Fits s.unconsumed a)
    (hfree : ∀ k ∈ scope.creates a, k ∉ s.pending) :
    s.accept scope a =
      ⟨⟨replay scope s.unconsumed a, s.pending, s.applied.insert a.id⟩, [a], none⟩ := by
  have happlied := analyse_of_fits hnew hfits
  rw [release_of_unawaited hfree] at happlied
  rw [accept, run_of_applied happlied]
  simp [run]

/-- A new atom that fits is passed on alone if nothing waits. -/
theorem accept_of_fits (hnew : a.id ∉ s.applied) (hfits : scope.Fits s.unconsumed a)
    (hnone : s.pending = ∅) :
    s.accept scope a = ⟨⟨replay scope s.unconsumed a, ∅, s.applied.insert a.id⟩, [a], none⟩ := by
  rw [accept_of_unawaited hnew hfits (by simp [hnone]), hnone]

end LedgerView

/-! ## Runs -/

/-- A property of the view, of the atoms passed on so far and of the work left that no analysis
breaks. -/
structure WorkInvariant (scope : Scope) (Inv : LedgerView → List Atom → List Atom → Prop) :
    Prop where
  known : ∀ {s emitted a work}, Inv s emitted (a :: work) → a.id ∈ s.applied → Inv s emitted work
  blocked : ∀ {s emitted a work s'}, Inv s emitted (a :: work) →
    s.analyse scope a = .blocked s' → Inv s' emitted work
  applied : ∀ {s emitted a work s' unblocked}, Inv s emitted (a :: work) →
    s.analyse scope a = .applied s' unblocked → Inv s' (emitted ++ [a]) (unblocked ++ work)

/-- A run keeps the invariant. It ends with no work left, or at an atom that is refused. -/
theorem WorkInvariant.run {scope : Scope} {Inv : LedgerView → List Atom → List Atom → Prop}
    (h : WorkInvariant scope Inv) {s : LedgerView} {emitted work : List Atom}
    (hs : Inv s emitted work) :
    ∃ left, Inv (s.run scope work).view (emitted ++ (s.run scope work).emitted) left ∧
      match (s.run scope work).violation with
      | none => left = []
      | some cause => ∃ a rest, left = a :: rest ∧
          (s.run scope work).view.analyse scope a = .refused cause := by
  fun_induction LedgerView.run scope s work generalizing emitted with
  | case1 s => exact ⟨[], by simpa using hs, rfl⟩
  | case2 s a work hknown ih => exact ih (h.known hs (LedgerView.analyse_eq_known_iff.1 hknown))
  | case3 s a work s' hblocked ih => exact ih (h.blocked hs hblocked)
  | case4 s a work cause hrefused => exact ⟨a :: work, by simpa using hs, a, work, rfl, hrefused⟩
  | case5 s a work s' unblocked happlied later =>
    rename_i ih
    obtain ⟨left, hinv, hend⟩ := ih (h.applied hs happlied)
    exact ⟨left, by simpa using hinv, hend⟩

end ParticleLedger
