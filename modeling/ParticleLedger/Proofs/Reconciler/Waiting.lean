import Mathlib.Data.Set.Function
import ParticleLedger.Proofs.Reconciler.History

/-!
# Where every atom is

An atom that a view has heard of has been applied, or is still to be worked through, or waits under
a coin that it spends and that is not there. This is `Kept`, and no analysis breaks it, whether or
not the atoms contradict each other. `Waiting` adds that what waits has not been applied, which
needs that names tell the atoms apart. That no atom comes from elsewhere (`Drawn`) holds whatever the
view is to begin with.

Main statements: `pending_of_blocked` (how the waiting atoms change), `Kept.workInvariant`,
`Waiting.workInvariant` and `WorkInvariant.acceptAll` (what runs keep, offers keep).
-/

namespace ParticleLedger

/-! ## Copies -/

namespace Atom

/-- The atom without its signatures. Copies of an atom, which differ in their signatures only, have
one bare atom. -/
def bare (a : Atom) : Atom :=
  { a with signatures := ∅ }

variable {scope : Scope} {a b : Atom}

@[simp] theorem id_bare : a.bare.id = a.id := rfl

@[simp] theorem consumed_bare : scope.consumed a.bare = scope.consumed a := rfl

@[simp] theorem created_bare : scope.created a.bare = scope.created a := rfl

theorem id_eq_of_bare (h : a.bare = b.bare) : a.id = b.id := by
  rw [← id_bare, h, id_bare]

theorem consumed_eq_of_bare (h : a.bare = b.bare) : scope.consumed a = scope.consumed b := by
  rw [← consumed_bare, h, consumed_bare]

end Atom

/-! ## The waiting atoms after an analysis -/

namespace LedgerView

variable {scope : Scope} {s s' : LedgerView} {a : Atom}

/-- After an atom was blocked, it or a copy of it waits, what waited still waits, and nothing else
does. -/
theorem pending_of_blocked (h : s.analyse scope a = .blocked s') :
    s'.unconsumed = s.unconsumed ∧ s'.applied = s.applied ∧
      (∃ (k : ParticleId) (b : Atom), s'.pending[k]? = some b ∧ b.id = a.id) ∧
      (∀ (k : ParticleId) (b : Atom), s.pending[k]? = some b → s'.pending[k]? = some b) ∧
      ∀ (k : ParticleId) (b : Atom), s'.pending[k]? = some b →
        s.pending[k]? = some b ∨ b = a ∧ s.missing? scope a = some k := by
  obtain ⟨-, k, hmiss, ⟨hfree, rfl⟩ | ⟨b, hb, hid, rfl⟩⟩ := analyse_eq_blocked h
  · have hpending : ∀ (j : ParticleId) (x : Atom), (s.pending.insert k a)[j]? = some x ↔
        j = k ∧ x = a ∨ s.pending[j]? = some x := by
      intro j x
      rw [Std.ExtTreeMap.getElem?_insert]
      by_cases hj : k = j
      · subst hj
        simp [hfree, eq_comm]
      · simp [hj, Ne.symm hj]
    refine ⟨rfl, rfl, ⟨k, a, (hpending k a).2 (.inl ⟨rfl, rfl⟩), rfl⟩, ?_, ?_⟩
    · intro j x hx
      exact (hpending j x).2 (.inr hx)
    · intro j x hx
      rcases (hpending j x).1 hx with ⟨rfl, rfl⟩ | hx
      · exact .inr ⟨rfl, hmiss⟩
      · exact .inl hx
  · exact ⟨rfl, rfl, ⟨k, b, hb, hid⟩, fun _ _ hx => hx, fun _ _ hx => .inl hx⟩

/-- If what waits does so for the first coin that it misses, that is still so after one more atom was
blocked. -/
theorem missing?_of_blocked (hs : s.analyse scope a = .blocked s')
    (h : ∀ (k : ParticleId) (b : Atom), s.pending[k]? = some b → s.missing? scope b = some k)
    {k : ParticleId} {b : Atom} (hb : s'.pending[k]? = some b) : s'.missing? scope b = some k := by
  obtain ⟨hcoins, -, -, -, hfrom⟩ := pending_of_blocked hs
  unfold missing?
  rw [hcoins]
  rcases hfrom k b hb with hb | ⟨rfl, hmiss⟩
  · exact h k b hb
  · exact hmiss

/-- An atom that waits does so for a coin that it still misses first after another was applied, if
that one neither creates the coin nor spends what it spends. -/
theorem missing?_of_applied {unblocked : List Atom} {b : Atom} {k : ParticleId}
    (hs : s.analyse scope a = .applied s' unblocked) (hmiss : s.missing? scope b = some k)
    (hk : k ∉ scope.creates a) (hapart : ∀ j ∈ scope.consumed b, j ∉ scope.consumed a) :
    s'.missing? scope b = some k := by
  obtain ⟨-, -, rfl, -⟩ := analyse_eq_applied hs
  obtain ⟨hmissing, before, after, heq, hbefore⟩ := missing?_eq_some_iff.1 hmiss
  refine missing?_eq_some_iff.2 ⟨?_, before, after, heq, fun j hj => ?_⟩
  · rw [mem_replay]
    tauto
  · have hunspent : j ∉ scope.consumed a := hapart j (by simp [heq, hj])
    exact mem_replay.2 (.inr ⟨hbefore j hj, hunspent⟩)

end LedgerView

/-! ## Where the atoms come from -/

/-- Every atom passed on, worked through or waiting comes from `T`. -/
structure Drawn (T : Set Atom) (s : LedgerView) (emitted work : List Atom) : Prop where
  emitted_mem : ∀ e ∈ emitted, e ∈ T
  work_mem : ∀ w ∈ work, w ∈ T
  waiting_mem : ∀ (k : ParticleId) (b : Atom), s.pending[k]? = some b → b ∈ T

namespace Drawn

variable {scope : Scope} {T : Set Atom} {emitted work unblocked : List Atom} {s s' : LedgerView}
  {a : Atom}

theorem known (h : Drawn T s emitted (a :: work)) : Drawn T s emitted work :=
  ⟨h.emitted_mem, fun w hw => h.work_mem w (List.mem_cons_of_mem _ hw), h.waiting_mem⟩

theorem blocked (h : Drawn T s emitted (a :: work)) (hs : s.analyse scope a = .blocked s') :
    Drawn T s' emitted work := by
  refine ⟨h.emitted_mem, h.known.work_mem, fun k b hb => ?_⟩
  obtain ⟨-, -, -, -, hfrom⟩ := LedgerView.pending_of_blocked hs
  rcases hfrom k b hb with hb | ⟨rfl, -⟩
  · exact h.waiting_mem k b hb
  · exact h.work_mem b List.mem_cons_self

theorem applied (h : Drawn T s emitted (a :: work))
    (hs : s.analyse scope a = .applied s' unblocked) :
    Drawn T s' (emitted ++ [a]) (unblocked ++ work) := by
  obtain ⟨-, -, rfl, rfl⟩ := LedgerView.analyse_eq_applied hs
  refine ⟨fun e he => ?_, fun w hw => ?_, fun k b hb => ?_⟩
  · rcases List.mem_append.1 he with he | he
    · exact h.emitted_mem e he
    · rw [List.mem_singleton.1 he]
      exact h.work_mem a List.mem_cons_self
  · rcases List.mem_append.1 hw with hw | hw
    · obtain ⟨k, -, hk⟩ := (LedgerView.mem_release _ _).1 hw
      exact h.waiting_mem k w hk
    · exact h.known.work_mem w hw
  · exact h.waiting_mem k b (LedgerView.getElem?_release_eq_some_iff.1 hb).2

theorem workInvariant (scope : Scope) (T : Set Atom) : WorkInvariant scope (Drawn T) where
  known h _ := h.known
  blocked := blocked
  applied := applied

end Drawn

/-! ## Where an atom is -/

/-- All atoms come from `T`. Each one heard of has been applied, or is still to be worked through,
or waits; and each that waits does so for a coin that it spends and that is not there. -/
structure Kept (scope : Scope) (T : Set Atom) (heard : List Atom) (s : LedgerView)
    (emitted work : List Atom) : Prop where
  emitted_mem : ∀ e ∈ emitted, e ∈ T
  work_mem : ∀ w ∈ work, w ∈ T
  waiting_mem : ∀ (k : ParticleId) (b : Atom), s.pending[k]? = some b → b ∈ T
  waiting_missing : ∀ (k : ParticleId) (b : Atom), s.pending[k]? = some b →
    k ∈ scope.consumed b ∧ k ∉ s.unconsumed
  accounted : ∀ x ∈ heard, x.id ∈ s.applied ∨ (∃ w ∈ work, w.id = x.id) ∨
    ∃ (k : ParticleId) (b : Atom), s.pending[k]? = some b ∧ b.id = x.id

/-- All atoms come from `S`. Each one heard of has been applied, or is still to be worked through,
or waits; and each that waits has not been applied and waits for a coin that it spends and that is
not there. -/
structure Waiting (scope : Scope) (S : Set Atom) (heard : List Atom) (s : LedgerView)
    (emitted work : List Atom) : Prop where
  emitted_mem : ∀ e ∈ emitted, e.bare ∈ S
  work_mem : ∀ w ∈ work, w.bare ∈ S
  waiting_mem : ∀ (k : ParticleId) (b : Atom), s.pending[k]? = some b → b.bare ∈ S
  waiting_new : ∀ (k : ParticleId) (b : Atom), s.pending[k]? = some b → b.id ∉ s.applied
  waiting_missing : ∀ (k : ParticleId) (b : Atom), s.pending[k]? = some b →
    k ∈ scope.consumed b ∧ k ∉ s.unconsumed
  accounted : ∀ x ∈ heard, x.id ∈ s.applied ∨ (∃ w ∈ work, w.id = x.id) ∨
    ∃ (k : ParticleId) (b : Atom), s.pending[k]? = some b ∧ b.id = x.id

namespace Kept

variable {scope : Scope} {T : Set Atom} {heard emitted work unblocked : List Atom}
  {s s' : LedgerView} {a : Atom}

theorem drawn (h : Kept scope T heard s emitted work) : Drawn T s emitted work :=
  ⟨h.emitted_mem, h.work_mem, h.waiting_mem⟩

theorem empty : Kept scope T [] .empty [] [] := by
  constructor <;> simp [LedgerView.empty]

/-- Hearing of one more atom puts it into the work. -/
theorem hear (h : Kept scope T heard s emitted []) (ha : a ∈ T) :
    Kept scope T (heard ++ [a]) s emitted [a] where
  emitted_mem := h.emitted_mem
  work_mem := by simpa using ha
  waiting_mem := h.waiting_mem
  waiting_missing := h.waiting_missing
  accounted x hx := by
    rcases List.mem_append.1 hx with hx | hx
    · rcases h.accounted x hx with happlied | ⟨w, hw, -⟩ | hwaits
      · exact .inl happlied
      · simp at hw
      · exact .inr (.inr hwaits)
    · exact .inr (.inl ⟨a, by simp, by rw [List.mem_singleton.1 hx]⟩)

theorem known (h : Kept scope T heard s emitted (a :: work)) (ha : a.id ∈ s.applied) :
    Kept scope T heard s emitted work where
  emitted_mem := h.emitted_mem
  work_mem w hw := h.work_mem w (List.mem_cons_of_mem _ hw)
  waiting_mem := h.waiting_mem
  waiting_missing := h.waiting_missing
  accounted x hx := by
    rcases h.accounted x hx with happlied | ⟨w, hw, hid⟩ | hwaits
    · exact .inl happlied
    · rcases List.mem_cons.1 hw with rfl | hw
      · exact .inl (hid ▸ ha)
      · exact .inr (.inl ⟨w, hw, hid⟩)
    · exact .inr (.inr hwaits)

theorem blocked (h : Kept scope T heard s emitted (a :: work))
    (hs : s.analyse scope a = .blocked s') : Kept scope T heard s' emitted work := by
  obtain ⟨hcoins, happlied, ⟨k, b, hb, hid⟩, hstay, hfrom⟩ := LedgerView.pending_of_blocked hs
  obtain ⟨hemitted, hwork, hwaiting⟩ := h.drawn.blocked hs
  refine ⟨hemitted, hwork, hwaiting, ?_, ?_⟩
  · intro j x hx
    rw [hcoins]
    rcases hfrom j x hx with hx | ⟨rfl, hmiss⟩
    · exact h.waiting_missing j x hx
    · exact ⟨LedgerView.mem_consumed_of_missing? hmiss, LedgerView.not_mem_of_missing? hmiss⟩
  · intro x hx
    rw [happlied]
    rcases h.accounted x hx with happlied | ⟨w, hw, hidw⟩ | ⟨j, y, hy, hidy⟩
    · exact .inl happlied
    · rcases List.mem_cons.1 hw with rfl | hw
      · exact .inr (.inr ⟨k, b, hb, hid.trans hidw⟩)
      · exact .inr (.inl ⟨w, hw, hidw⟩)
    · exact .inr (.inr ⟨j, y, hstay j y hy, hidy⟩)

theorem applied (h : Kept scope T heard s emitted (a :: work))
    (hs : s.analyse scope a = .applied s' unblocked) :
    Kept scope T heard s' (emitted ++ [a]) (unblocked ++ work) := by
  obtain ⟨hemitted, hwork, hwaiting⟩ := h.drawn.applied hs
  obtain ⟨-, -, rfl, rfl⟩ := LedgerView.analyse_eq_applied hs
  refine ⟨hemitted, hwork, hwaiting, ?_, ?_⟩
  · intro j x hx
    obtain ⟨hj, hbefore⟩ := LedgerView.getElem?_release_eq_some_iff.1 hx
    obtain ⟨hk, hmissing⟩ := h.waiting_missing j x hbefore
    refine ⟨hk, ?_⟩
    rw [LedgerView.mem_replay]
    tauto
  · intro x hx
    rw [Std.ExtTreeSet.mem_insert, Std.compare_eq_iff_eq]
    rcases h.accounted x hx with happlied | ⟨w, hw, hid⟩ | ⟨j, y, hy, hid⟩
    · exact .inl (.inr happlied)
    · rcases List.mem_cons.1 hw with rfl | hw
      · exact .inl (.inl hid)
      · exact .inr (.inl ⟨w, List.mem_append_right _ hw, hid⟩)
    · by_cases hj : j ∈ scope.creates a
      · have hreleased := (LedgerView.mem_release s.pending (scope.creates a)).2 ⟨j, hj, hy⟩
        exact .inr (.inl ⟨y, List.mem_append_left _ hreleased, hid⟩)
      · exact .inr (.inr ⟨j, y, LedgerView.getElem?_release_eq_some_iff.2 ⟨hj, hy⟩, hid⟩)

/-- No analysis loses an atom. -/
theorem workInvariant : WorkInvariant scope (Kept scope T heard) where
  known := known
  blocked := blocked
  applied := applied

end Kept

/-! ## Atoms that wait have not been applied -/

namespace Waiting

variable {scope : Scope} {S : Set Atom} {heard emitted work unblocked : List Atom}
  {s s' : LedgerView} {a : Atom}

theorem kept (h : Waiting scope S heard s emitted work) :
    Kept scope {x | x.bare ∈ S} heard s emitted work :=
  ⟨h.emitted_mem, h.work_mem, h.waiting_mem, h.waiting_missing, h.accounted⟩

theorem of_kept (h : Kept scope {x | x.bare ∈ S} heard s emitted work)
    (hnew : ∀ (k : ParticleId) (b : Atom), s.pending[k]? = some b → b.id ∉ s.applied) :
    Waiting scope S heard s emitted work :=
  ⟨h.emitted_mem, h.work_mem, h.waiting_mem, hnew, h.waiting_missing, h.accounted⟩

theorem empty : Waiting scope S [] .empty [] [] :=
  of_kept .empty (by simp [LedgerView.empty])

/-- Hearing of one more atom from `S` puts it into the work. -/
theorem hear (h : Waiting scope S heard s emitted []) (ha : a.bare ∈ S) :
    Waiting scope S (heard ++ [a]) s emitted [a] :=
  of_kept (h.kept.hear ha) h.waiting_new

theorem known (h : Waiting scope S heard s emitted (a :: work)) (ha : a.id ∈ s.applied) :
    Waiting scope S heard s emitted work :=
  of_kept (h.kept.known ha) h.waiting_new

theorem blocked (h : Waiting scope S heard s emitted (a :: work))
    (hs : s.analyse scope a = .blocked s') : Waiting scope S heard s' emitted work := by
  have hnew : a.id ∉ s.applied := (LedgerView.analyse_eq_blocked hs).1
  obtain ⟨-, happlied, -, -, hfrom⟩ := LedgerView.pending_of_blocked hs
  refine of_kept (h.kept.blocked hs) fun j x hx => ?_
  rw [happlied]
  rcases hfrom j x hx with hx | ⟨rfl, -⟩
  · exact h.waiting_new j x hx
  · exact hnew

/-- An atom that waits is not the one that is applied, nor a copy of it: it misses a coin. -/
theorem id_ne_of_fits (hnames : S.InjOn Atom.id)
    (h : Waiting scope S heard s emitted (a :: work)) (hfits : scope.Fits s.unconsumed a)
    {k : ParticleId} {b : Atom} (hb : s.pending[k]? = some b) : b.id ≠ a.id := by
  intro hid
  obtain ⟨hk, hmissing⟩ := h.waiting_missing k b hb
  have hbare : b.bare = a.bare :=
    hnames (h.waiting_mem k b hb) (h.work_mem a List.mem_cons_self) hid
  rw [Atom.consumed_eq_of_bare hbare] at hk
  exact hmissing (hfits.spends_present k hk)

theorem applied (hnames : S.InjOn Atom.id) (h : Waiting scope S heard s emitted (a :: work))
    (hs : s.analyse scope a = .applied s' unblocked) :
    Waiting scope S heard s' (emitted ++ [a]) (unblocked ++ work) := by
  refine of_kept (h.kept.applied hs) ?_
  obtain ⟨-, hfits, rfl, -⟩ := LedgerView.analyse_eq_applied hs
  intro j x hx
  have hbefore := (LedgerView.getElem?_release_eq_some_iff.1 hx).2
  rw [Std.ExtTreeSet.mem_insert, Std.compare_eq_iff_eq, not_or]
  exact ⟨(h.id_ne_of_fits hnames hfits hbefore).symm, h.waiting_new j x hbefore⟩

/-- If names tell the atoms apart, no analysis loses one. -/
theorem workInvariant (hnames : S.InjOn Atom.id) :
    WorkInvariant scope (Waiting scope S heard) where
  known := known
  blocked := blocked
  applied := applied hnames

end Waiting

/-! ## Offers -/

/-- What every run keeps is kept over offers of atoms of `T`, if hearing of one more of them makes it
the work of the next run. Unless a violation was met, no work is left. -/
theorem WorkInvariant.acceptAll {scope : Scope} {T : Set Atom}
    {Inv : List Atom → LedgerView → List Atom → List Atom → Prop}
    (hrun : ∀ heard, WorkInvariant scope (Inv heard)) (hempty : Inv [] .empty [] [])
    (hear : ∀ {heard s emitted a}, Inv heard s emitted [] → a ∈ T →
      Inv (heard ++ [a]) s emitted [a])
    {offered : List Atom} (hT : ∀ a ∈ offered, a ∈ T) :
    ∃ heard left, Inv heard ((Reconciler.fresh scope).acceptAll offered).view
        ((Reconciler.fresh scope).emissions offered) left ∧
      (((Reconciler.fresh scope).acceptAll offered).halted = none →
        heard = offered ∧ left = []) := by
  induction offered using List.reverseRecOn with
  | nil => exact ⟨[], [], hempty, fun _ => ⟨rfl, rfl⟩⟩
  | append_singleton offered a ih =>
    obtain ⟨heard, left, hinv, hend⟩ := ih fun b hb => hT b (by simp [hb])
    have hscope : ((Reconciler.fresh scope).acceptAll offered).scope = scope :=
      Reconciler.scope_acceptAll offered
    rw [Reconciler.acceptAll_concat, Reconciler.emissions_concat]
    cases hhalted : ((Reconciler.fresh scope).acceptAll offered).halted with
    | some reason =>
      -- A halted reconciler stays as it is.
      rw [Reconciler.accept_of_halted hhalted]
      exact ⟨heard, left, by simpa using hinv, by simp [hhalted]⟩
    | none =>
      obtain ⟨rfl, rfl⟩ := hend hhalted
      obtain ⟨left, hleft, hstop⟩ := (hrun _).run (hear hinv (hT a (by simp)))
      rw [Reconciler.accept_of_running hhalted, hscope]
      refine ⟨_, left, hleft, fun hviolation => ⟨rfl, ?_⟩⟩
      simp only [LedgerView.accept] at hviolation
      rw [hviolation] at hstop
      exact hstop

end ParticleLedger
