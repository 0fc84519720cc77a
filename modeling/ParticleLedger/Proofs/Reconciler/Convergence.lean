import Mathlib.Order.Bounds.Basic
import ParticleLedger.Proofs.Reconciler.Lineage
import ParticleLedger.Proofs.Reconciler.Waiting

/-!
# Every order of delivery ends in the same place

Some atoms are free of conflicts if no coin is created twice and none is spent by two of them. Such
atoms may be delivered in any order and any number of times, some of them waiting for what is never
created: no offer fails, and what has been passed on in the end, what is unspent and what waits
where depend on the atoms alone.

The invariant is `Settling`. It keeps track of every atom that was heard of: it has been applied, or
is still to be worked through, or waits for the first coin that it misses. Freedom from conflicts
enters at one place, where an atom is applied: what another one waits for is not spent by it.

Main statements: `Settling.workInvariant`, `Settling.not_refused` and `delivery_converges`.
-/

namespace ParticleLedger

open LedgerView (replayAll)

/-! ## Atoms free of conflicts -/

/-- The atoms of a list, each without its signatures. -/
def bareAtoms (atoms : List Atom) : Set Atom :=
  Atom.bare '' {a | a ∈ atoms}

/-- Atoms of different names are told apart by their names without their signatures as well. -/
theorem injOn_id_bareAtoms {atoms : List Atom} (h : (atoms.map Atom.id).Nodup) :
    (bareAtoms atoms).InjOn Atom.id := by
  rintro _ ⟨a, ha, rfl⟩ _ ⟨b, hb, rfl⟩ hid
  rw [List.inj_on_of_nodup_map h ha hb hid]

namespace Scope

variable {scope : Scope} {S A B : Set Atom} {a : Atom} {j k : ParticleId}

/-- No relevant coin is created twice, by two atoms or by one, and none is spent by two atoms. -/
structure ConflictFree (scope : Scope) (S : Set Atom) : Prop where
  created_by_one : ∀ a ∈ S, ∀ b ∈ S, ∀ k ∈ scope.creates a, k ∈ scope.creates b → a = b
  creates_nodup : ∀ a ∈ S, (scope.creates a).Nodup
  spent_by_one : ∀ a ∈ S, ∀ b ∈ S, ∀ k ∈ scope.consumed a, k ∈ scope.consumed b → a = b

/-- Every atom of `S` is in `A` if each relevant coin that it spends is created by an atom of
`A`. -/
def CausallyClosed (scope : Scope) (S A : Set Atom) : Prop :=
  ∀ a ∈ S, (∀ k ∈ scope.consumed a, ∃ x ∈ A, k ∈ scope.creates x) → a ∈ A

/-- The coin is the first of those that the atom spends that is not created in `A`. -/
def WaitsFor (scope : Scope) (A : Set Atom) (a : Atom) (k : ParticleId) : Prop :=
  (∀ x ∈ A, k ∉ scope.creates x) ∧ ∃ before after, scope.consumed a = before ++ k :: after ∧
    ∀ j ∈ before, ∃ x ∈ A, j ∈ scope.creates x

open Classical in
theorem waitsFor_iff_find? : scope.WaitsFor A a k ↔
    (scope.consumed a).find? (fun j => ∀ x ∈ A, j ∉ scope.creates x) = some k := by
  simp [WaitsFor, List.find?_eq_some_iff_append]

theorem WaitsFor.unique (hj : scope.WaitsFor A a j) (hk : scope.WaitsFor A a k) : j = k := by
  rw [waitsFor_iff_find?] at hj hk
  exact Option.some_inj.1 (hj.symm.trans hk)

/-- Two entries of what an atom creates that have the same name are the same coin. -/
theorem ConflictFree.created_inj (h : scope.ConflictFree S) (ha : a ∈ S) {c d : Coin}
    (hc : (k, c) ∈ scope.created a) (hd : (k, d) ∈ scope.created a) : c = d :=
  (Prod.mk.inj (List.inj_on_of_nodup_map (h.creates_nodup a ha) hc hd rfl)).2

/-- Atoms passed on in an orderly way are in every causally closed set. -/
theorem Orderly.bare_mem_of_closed {history : List Atom} (h : scope.Orderly history)
    (hS : ∀ e ∈ history, e.bare ∈ S) (hB : scope.CausallyClosed S B) :
    ∀ e ∈ history, e.bare ∈ B := by
  induction history using List.reverseRecOn with
  | nil => simp
  | append_singleton history a ih =>
    obtain ⟨hbefore, hfits⟩ := orderly_concat_iff.1 h
    have hearlier : ∀ e ∈ history, e.bare ∈ B := ih hbefore fun e he => hS e (by simp [he])
    intro e he
    rcases List.mem_append.1 he with he | he
    · exact hearlier e he
    · obtain rfl := List.mem_singleton.1 he
      refine hB _ (hS e (by simp)) fun k hk => ?_
      obtain ⟨before, x, after, rfl, hx, -⟩ :=
        LedgerView.mem_replayAll_iff.1 (hfits.spends_present k hk)
      exact ⟨x.bare, hearlier x (by simp), hx⟩

/-- A history of distinct atoms from a set free of conflicts creates every coin once. -/
theorem ConflictFree.noRevival {history : List Atom} (h : scope.ConflictFree S)
    (hS : ∀ e ∈ history, e.bare ∈ S) (hdistinct : (history.map Atom.id).Nodup)
    (horderly : scope.Orderly history) : scope.NoRevival history := by
  rw [← createdOnce_iff_noRevival horderly, CreatedOnce]
  refine (List.pairwise_map.1 hdistinct).imp_of_mem fun {a b} ha hb hne k hka hkb => hne ?_
  exact Atom.id_eq_of_bare (h.created_by_one _ (hS a ha) _ (hS b hb) k hka hkb)

end Scope

/-! ## Settling down -/

/-- The view records what was passed on, every atom heard of is accounted for, and each that waits
does so for the first coin that it misses. -/
structure Settling (scope : Scope) (S : Set Atom) (heard : List Atom) (s : LedgerView)
    (emitted work : List Atom) : Prop where
  records : s.Records scope emitted
  waiting : Waiting scope S heard s emitted work
  waiting_first : ∀ (k : ParticleId) (b : Atom), s.pending[k]? = some b →
    s.missing? scope b = some k

namespace Settling

variable {scope : Scope} {S : Set Atom} {heard emitted work unblocked : List Atom}
  {s s' : LedgerView} {a : Atom}

theorem blocked (h : Settling scope S heard s emitted (a :: work))
    (hs : s.analyse scope a = .blocked s') : Settling scope S heard s' emitted work :=
  ⟨h.records.blocked hs, h.waiting.blocked hs, fun _ _ hx =>
    LedgerView.missing?_of_blocked hs h.waiting_first hx⟩

/-- What another atom waits for stays the first coin that it misses: the coins before it are not
spent by the atom that is applied. -/
theorem applied (hnames : S.InjOn Atom.id) (hfree : scope.ConflictFree S)
    (h : Settling scope S heard s emitted (a :: work))
    (hs : s.analyse scope a = .applied s' unblocked) :
    Settling scope S heard s' (emitted ++ [a]) (unblocked ++ work) := by
  refine ⟨h.records.applied hs, h.waiting.applied hnames hs, ?_⟩
  intro k b hb
  obtain ⟨-, hfits, rfl, -⟩ := LedgerView.analyse_eq_applied hs
  obtain ⟨hk, hb⟩ := LedgerView.getElem?_release_eq_some_iff.1 hb
  refine LedgerView.missing?_of_applied hs (h.waiting_first k b hb) hk fun j hjb hja => ?_
  have hbare : b.bare = a.bare := hfree.spent_by_one _ (h.waiting.waiting_mem k b hb) _
    (h.waiting.work_mem a List.mem_cons_self) j hjb hja
  exact h.waiting.id_ne_of_fits hnames hfits hb (Atom.id_eq_of_bare hbare)

theorem workInvariant (hnames : S.InjOn Atom.id) (hfree : scope.ConflictFree S) :
    WorkInvariant scope (Settling scope S heard) where
  known h ha := ⟨h.records, h.waiting.known ha, h.waiting_first⟩
  blocked := blocked
  applied := applied hnames hfree

theorem bareAtoms_emitted_subset (h : Settling scope S heard s emitted work) :
    bareAtoms emitted ⊆ S := by
  rintro _ ⟨e, he, rfl⟩
  exact h.waiting.emitted_mem e he

/-- Of an atom from `S` that has been applied, a copy was passed on. -/
theorem bare_mem_of_applied (hnames : S.InjOn Atom.id) (h : Settling scope S heard s emitted work)
    (ha : a.bare ∈ S) (happlied : a.id ∈ s.applied) : a.bare ∈ bareAtoms emitted := by
  obtain ⟨e, he, hid⟩ := (h.records.applied_iff a.id).1 happlied
  exact ⟨e, he, hnames (h.waiting.emitted_mem e he) ha hid⟩

/-- Atoms free of conflicts are never refused. -/
theorem not_refused (hfree : scope.ConflictFree S)
    (h : Settling scope S heard s emitted (a :: work)) {cause : Violation} :
    s.analyse scope a ≠ .refused cause := by
  intro hs
  have ha : a.bare ∈ S := h.waiting.work_mem a List.mem_cons_self
  obtain ⟨hnew, ⟨k, b, hmiss, hb, hid, -⟩ | ⟨-, k, hcreate, -⟩⟩ := LedgerView.analyse_eq_refused hs
  · -- The coin is spent by the one that waits for it and by this one.
    have hkb : k ∈ scope.consumed b := (h.waiting.waiting_missing k b hb).1
    have hbare : b.bare = a.bare := hfree.spent_by_one _ (h.waiting.waiting_mem k b hb) _ ha k hkb
      (LedgerView.mem_consumed_of_missing? hmiss)
    exact hid (Atom.id_eq_of_bare hbare)
  · have hfresh : ∀ j ∈ scope.creates a, j ∉ s.unconsumed := by
      intro j hj hpresent
      rw [h.records.unconsumed_eq, LedgerView.mem_replayAll_iff] at hpresent
      obtain ⟨before, e, after, rfl, hje, -⟩ := hpresent
      have hbare : e.bare = a.bare :=
        hfree.created_by_one _ (h.waiting.emitted_mem e (by simp)) _ ha j hje hj
      exact hnew ((h.records.applied_iff a.id).2 ⟨e, by simp, Atom.id_eq_of_bare hbare⟩)
    have hnodup : (scope.creates a).Nodup := hfree.creates_nodup a.bare ha
    have hnone : s.recreated? [] (scope.creates a) = none :=
      LedgerView.recreated?_eq_none_iff.2 ⟨fun j hj => ⟨hfresh j hj, by simp⟩, hnodup⟩
    rw [hnone] at hcreate
    contradiction

/-- A run over atoms free of conflicts works through all of them. -/
theorem run (hnames : S.InjOn Atom.id) (hfree : scope.ConflictFree S)
    (h : Settling scope S heard s emitted work) :
    (s.run scope work).violation = none ∧
      Settling scope S heard (s.run scope work).view
        (emitted ++ (s.run scope work).emitted) [] := by
  obtain ⟨left, hleft, hend⟩ := (workInvariant hnames hfree).run h
  cases hviolation : (s.run scope work).violation with
  | none =>
    rw [hviolation] at hend
    obtain rfl := hend
    exact ⟨rfl, hleft⟩
  | some cause =>
    rw [hviolation] at hend
    obtain ⟨a, rest, rfl, hrefused⟩ := hend
    exact absurd hrefused (not_refused hfree hleft)

/-- Hearing of one more atom from `S` puts it into the work. -/
theorem hear (h : Settling scope S heard s emitted []) (ha : a.bare ∈ S) :
    Settling scope S (heard ++ [a]) s emitted [a] where
  records := h.records
  waiting := h.waiting.hear ha
  waiting_first := h.waiting_first

/-! ### Where it settles -/

/-- The coins that are there are those created and never spent. -/
theorem mem_unconsumed_iff (hfree : scope.ConflictFree S)
    (h : Settling scope S heard s emitted work) {k : ParticleId} :
    k ∈ s.unconsumed ↔
      (∃ e ∈ emitted, k ∈ scope.creates e) ∧ ∀ e ∈ emitted, k ∉ scope.consumed e := by
  rw [h.records.unconsumed_eq]
  exact (hfree.noRevival h.waiting.emitted_mem h.records.distinct
    h.records.orderly).mem_replayAll_iff h.records.orderly

theorem getElem?_unconsumed_iff (hfree : scope.ConflictFree S)
    (h : Settling scope S heard s emitted work) {k : ParticleId} {c : Coin} :
    s.unconsumed[k]? = some c ↔
      (∃ e ∈ emitted, (k, c) ∈ scope.created e) ∧ ∀ e ∈ emitted, k ∉ scope.consumed e := by
  constructor
  · intro hc
    have hmem : k ∈ s.unconsumed := by
      rw [Std.ExtTreeMap.mem_iff_isSome_getElem?, hc]
      rfl
    refine ⟨?_, ((h.mem_unconsumed_iff hfree).1 hmem).2⟩
    rw [h.records.unconsumed_eq] at hc
    exact LedgerView.getElem?_replayAll hc
  · rintro ⟨⟨e, he, hc⟩, hunspent⟩
    have hk : k ∈ scope.creates e := Scope.mem_creates.2 ⟨c, hc⟩
    have hmem : k ∈ s.unconsumed := (h.mem_unconsumed_iff hfree).2 ⟨⟨e, he, hk⟩, hunspent⟩
    obtain ⟨d, hd⟩ := Option.isSome_iff_exists.1 (Std.ExtTreeMap.mem_iff_isSome_getElem?.1 hmem)
    rw [hd]
    rw [h.records.unconsumed_eq] at hd
    obtain ⟨x, hx, hdx⟩ := LedgerView.getElem?_replayAll hd
    -- One atom created both.
    have hbare : x.bare = e.bare := hfree.created_by_one _ (h.waiting.emitted_mem x hx) _
      (h.waiting.emitted_mem e he) k (Scope.mem_creates.2 ⟨d, hdx⟩) hk
    rw [← Atom.created_bare, hbare] at hdx
    rw [hfree.created_inj (h.waiting.emitted_mem e he) hdx hc]

/-- An atom that waits has not been passed on. -/
theorem bare_notMem_of_waiting (h : Settling scope S heard s emitted work) {k : ParticleId}
    {b : Atom} (hb : s.pending[k]? = some b) : b.bare ∉ bareAtoms emitted := by
  rintro ⟨e, he, hbare⟩
  exact h.waiting.waiting_new k b hb
    ((h.records.applied_iff b.id).2 ⟨e, he, Atom.id_eq_of_bare hbare⟩)

/-- The coin that an atom waits for is created by none of those passed on, and it is the first of
those that the atom spends that is not. -/
theorem waitsFor_of_waiting (hfree : scope.ConflictFree S)
    (h : Settling scope S heard s emitted work) {k : ParticleId} {b : Atom}
    (hb : s.pending[k]? = some b) : scope.WaitsFor (bareAtoms emitted) b k := by
  obtain ⟨hmissing, before, after, heq, hbefore⟩ :=
    LedgerView.missing?_eq_some_iff.1 (h.waiting_first k b hb)
  refine ⟨?_, before, after, heq, ?_⟩
  · rintro _ ⟨e, he, rfl⟩ hk
    refine hmissing ((h.mem_unconsumed_iff hfree).2 ⟨⟨e, he, hk⟩, ?_⟩)
    intro x hx hkx
    have hbare : x.bare = b.bare := hfree.spent_by_one _ (h.waiting.emitted_mem x hx) _
      (h.waiting.waiting_mem k b hb) k hkx (by simp [heq])
    exact h.bare_notMem_of_waiting hb ⟨x, hx, hbare⟩
  · intro j hj
    obtain ⟨⟨e, he, hje⟩, -⟩ := (h.mem_unconsumed_iff hfree).1 (hbefore j hj)
    exact ⟨e.bare, ⟨e, he, rfl⟩, hje⟩

/-- With no work left, every atom heard of that has not been passed on waits. -/
theorem exists_waiting (hnames : S.InjOn Atom.id) (h : Settling scope S heard s emitted [])
    (hS : bareAtoms heard = S) (ha : a ∈ S \ bareAtoms emitted) :
    ∃ (k : ParticleId) (b : Atom), s.pending[k]? = some b ∧ b.bare = a := by
  obtain ⟨haS, hnot⟩ := ha
  obtain ⟨x, hx, rfl⟩ : a ∈ bareAtoms heard := hS ▸ haS
  rcases h.waiting.accounted x hx with happlied | ⟨w, hw, -⟩ | ⟨k, b, hb, hid⟩
  · exact absurd (h.bare_mem_of_applied hnames haS happlied) hnot
  · simp at hw
  · exact ⟨k, b, hb, hnames (h.waiting.waiting_mem k b hb) haS hid⟩

/-- With no work left, what waits is what was heard of and has not been passed on, each atom under
the first coin that it spends and that is created by none of those passed on. -/
theorem waiting_iff (hnames : S.InjOn Atom.id) (hfree : scope.ConflictFree S)
    (h : Settling scope S heard s emitted []) (hS : bareAtoms heard = S) {k : ParticleId} :
    (∃ b : Atom, s.pending[k]? = some b ∧ b.bare = a) ↔
      a ∈ S \ bareAtoms emitted ∧ scope.WaitsFor (bareAtoms emitted) a k := by
  constructor
  · rintro ⟨b, hb, rfl⟩
    have hfirst : scope.WaitsFor (bareAtoms emitted) b k := h.waitsFor_of_waiting hfree hb
    exact ⟨⟨h.waiting.waiting_mem k b hb, h.bare_notMem_of_waiting hb⟩, hfirst⟩
  · rintro ⟨ha, hk⟩
    obtain ⟨j, b, hb, rfl⟩ := h.exists_waiting hnames hS ha
    have hj : scope.WaitsFor (bareAtoms emitted) b j := h.waitsFor_of_waiting hfree hb
    obtain rfl := hj.unique hk
    exact ⟨b, hb, rfl⟩

/-- With no work left, every atom heard of that has not been passed on waits for one coin. -/
theorem existsUnique_waitsFor (hnames : S.InjOn Atom.id) (hfree : scope.ConflictFree S)
    (h : Settling scope S heard s emitted []) (hS : bareAtoms heard = S)
    (ha : a ∈ S \ bareAtoms emitted) : ∃! k, scope.WaitsFor (bareAtoms emitted) a k := by
  obtain ⟨k, hk⟩ := h.exists_waiting hnames hS ha
  have hfirst := ((h.waiting_iff hnames hfree hS).1 hk).2
  exact ⟨k, hfirst, fun j hj => hj.unique hfirst⟩

/-- With no work left, what has been passed on is the least part of what was heard of that contains
every atom whose spent coins are all created in it. -/
theorem isLeast_emitted (hnames : S.InjOn Atom.id) (hfree : scope.ConflictFree S)
    (h : Settling scope S heard s emitted []) (hS : bareAtoms heard = S) :
    IsLeast {A | A ⊆ S ∧ scope.CausallyClosed S A} (bareAtoms emitted) := by
  refine ⟨⟨h.bareAtoms_emitted_subset, ?_⟩, ?_⟩
  · intro a ha hcreated
    by_contra hnot
    obtain ⟨k, b, hb, rfl⟩ := h.exists_waiting hnames hS ⟨ha, hnot⟩
    obtain ⟨hnever, -⟩ := h.waitsFor_of_waiting hfree hb
    obtain ⟨y, hy, hky⟩ := hcreated k (h.waiting.waiting_missing k b hb).1
    exact hnever y hy hky
  · rintro B ⟨-, hB⟩ _ ⟨e, he, rfl⟩
    exact h.records.orderly.bare_mem_of_closed h.waiting.emitted_mem hB e he

end Settling

/-! ## Deliveries -/

namespace Reconciler

variable {scope : Scope} {S : Set Atom} {delivered : List Atom}

/-- While atoms free of conflicts are delivered, no offer fails, and in between nothing is left to
be worked through. -/
theorem settling_acceptAll (hnames : S.InjOn Atom.id) (hfree : scope.ConflictFree S)
    (hS : ∀ d ∈ delivered, d.bare ∈ S) :
    ((fresh scope).acceptAll delivered).halted = none ∧
      Settling scope S delivered ((fresh scope).acceptAll delivered).view
        ((fresh scope).emissions delivered) [] := by
  induction delivered using List.reverseRecOn with
  | nil =>
    refine ⟨rfl, LedgerView.Records.empty, ⟨?_, ?_, ?_, ?_, ?_, ?_⟩, ?_⟩ <;>
      simp [acceptAll, fresh, emissions, LedgerView.empty]
  | append_singleton delivered a ih =>
    obtain ⟨hrun, hsettling⟩ := ih fun d hd => hS d (by simp [hd])
    have hscope : ((fresh scope).acceptAll delivered).scope = scope := scope_acceptAll delivered
    have hnext := (hsettling.hear (hS a (by simp))).run hnames hfree
    rw [acceptAll_concat, emissions_concat, accept_of_running hrun, hscope]
    exact hnext

/-- An offer among atoms free of conflicts does not fail. -/
theorem accept_ok {before : List Atom} {a : Atom} (hnames : S.InjOn Atom.id)
    (hfree : scope.ConflictFree S) (hS : ∀ d ∈ before ++ [a], d.bare ∈ S) :
    (((fresh scope).acceptAll before).accept a).result =
      .ok (((fresh scope).acceptAll before).accept a).emitted := by
  have hrun := (settling_acceptAll hnames hfree fun d hd => hS d (List.mem_append_left _ hd)).1
  have hnext := (settling_acceptAll hnames hfree hS).1
  rw [acceptAll_concat, accept_of_running hrun] at hnext
  rw [accept_of_running hrun, Accepted.result]
  simp only at hnext
  rw [hnext]

/-- Whatever the order in which atoms free of conflicts are delivered, and however often, no offer
fails. What has been passed on in the end, each atom once, is the least part of them that contains
every atom whose spent coins are all created in it; the unspent coins are those that this part
creates and does not spend; and each of the other atoms waits, under the first coin that it spends
and that this part does not create, and nothing else waits. -/
theorem delivery_converges (scope : Scope) (S : Set Atom) (delivered : List Atom)
    (hnames : S.InjOn Atom.id) (hfree : scope.ConflictFree S) (hS : bareAtoms delivered = S) :
    let r := (fresh scope).acceptAll delivered
    let A := bareAtoms ((fresh scope).emissions delivered)
    (∀ before a after, delivered = before ++ a :: after →
      (((fresh scope).acceptAll before).accept a).result =
        .ok (((fresh scope).acceptAll before).accept a).emitted) ∧
    (((fresh scope).emissions delivered).map Atom.id).Nodup ∧
    IsLeast {A | A ⊆ S ∧ scope.CausallyClosed S A} A ∧
    (∀ (k : ParticleId) (c : Coin), r.view.unconsumed[k]? = some c ↔
      (∃ a ∈ A, (k, c) ∈ scope.created a) ∧ ∀ a ∈ A, k ∉ scope.consumed a) ∧
    (∀ (k : ParticleId) (a : Atom), (∃ b : Atom, r.view.pending[k]? = some b ∧ b.bare = a) ↔
      a ∈ S \ A ∧ scope.WaitsFor A a k) ∧
    ∀ a ∈ S \ A, ∃! k, scope.WaitsFor A a k := by
  intro r A
  have hmem : ∀ d ∈ delivered, d.bare ∈ S := fun d hd => hS ▸ ⟨d, hd, rfl⟩
  have h : Settling scope S delivered r.view ((fresh scope).emissions delivered) [] :=
    (settling_acceptAll hnames hfree hmem).2
  refine ⟨?_, h.records.distinct, h.isLeast_emitted hnames hfree hS, ?_,
    fun k a => h.waiting_iff hnames hfree hS, fun a ha => h.existsUnique_waitsFor hnames hfree hS ha⟩
  · rintro before a after rfl
    exact accept_ok hnames hfree fun d hd => hmem d (by
      simp only [List.mem_append, List.mem_cons, List.not_mem_nil, or_false] at hd ⊢
      tauto)
  · intro k c
    rw [h.getElem?_unconsumed_iff hfree]
    simp [A, bareAtoms]

/-- An atom that is delivered before the one that creates the coin that it spends, and once more
after it, has been passed on in the end, and so has the other. The coin came and went: nothing is
unspent, and nothing waits. -/
theorem delivery_converges_spend_first :
    let S : Set Atom := {Sample.issue, Sample.spend}
    let delivered := [Sample.spend, Sample.issue, Sample.spend]
    let r := (fresh Sample.scope).acceptAll delivered
    S.InjOn Atom.id ∧ Sample.scope.ConflictFree S ∧ bareAtoms delivered = S ∧
      bareAtoms ((fresh Sample.scope).emissions delivered) = S ∧
      r.view.unconsumed = ∅ ∧ r.view.pending = ∅ := by
  intro S delivered r
  have hne : Sample.issue.id ≠ Sample.spend.id := by
    have hdistinct := Sample.distinct_spend
    simpa using hdistinct
  have hnames : S.InjOn Atom.id := by
    rintro _ (rfl | rfl) _ (rfl | rfl) hid
    · rfl
    · exact absurd hid hne
    · exact absurd hid.symm hne
    · rfl
  have hfree : Sample.scope.ConflictFree S := by
    refine ⟨?_, ?_, ?_⟩ <;> simp [S]
  have hS : bareAtoms delivered = S := by
    ext a
    simp only [bareAtoms, delivered, S, Set.mem_image, Set.mem_ofPred_eq, List.mem_cons,
      List.not_mem_nil, or_false, Set.mem_insert_iff, Set.mem_singleton_iff]
    constructor
    · rintro ⟨_, rfl | rfl | rfl, rfl⟩
      · exact .inr rfl
      · exact .inl rfl
      · exact .inr rfl
    · rintro (rfl | rfl)
      · exact ⟨_, .inr (.inl rfl), rfl⟩
      · exact ⟨_, .inl rfl, rfl⟩
  obtain ⟨-, -, ⟨⟨hsub, hclosed⟩, -⟩, hunspent, hwaiting, -⟩ :=
    delivery_converges Sample.scope S delivered hnames hfree hS
  have hissue : Sample.issue ∈ bareAtoms ((fresh Sample.scope).emissions delivered) :=
    hclosed _ (.inl rfl) (by simp)
  have hspend : Sample.spend ∈ bareAtoms ((fresh Sample.scope).emissions delivered) :=
    hclosed _ (.inr rfl) fun k hk => ⟨_, hissue, by simpa using hk⟩
  have hall : bareAtoms ((fresh Sample.scope).emissions delivered) = S := by
    refine hsub.antisymm ?_
    rintro _ (rfl | rfl)
    · exact hissue
    · exact hspend
  refine ⟨hnames, hfree, hS, hall, ?_, ?_⟩
  · -- The one coin that is created is spent.
    refine Std.ExtTreeMap.ext_getElem? fun k => Option.eq_none_iff_forall_not_mem.2 fun c hc => ?_
    obtain ⟨⟨a, ha, hcreated⟩, hkept⟩ := (hunspent k c).1 hc
    have hk : k ∈ Sample.scope.creates a := Scope.mem_creates.2 ⟨c, hcreated⟩
    rw [hall] at ha
    rcases ha with rfl | rfl
    · exact hkept _ hspend (by simpa using hk)
    · simp at hk
  · -- Who waited would be none of those passed on.
    refine Std.ExtTreeMap.ext_getElem? fun k => Option.eq_none_iff_forall_not_mem.2 fun b hb => ?_
    obtain ⟨⟨hmem, hnot⟩, -⟩ := (hwaiting k b.bare).1 ⟨b, hb, rfl⟩
    exact hnot (hall ▸ hmem)

end Reconciler

end ParticleLedger
