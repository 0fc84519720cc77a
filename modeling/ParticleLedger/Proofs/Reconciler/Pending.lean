import ParticleLedger.Proofs.Reconciler.Convergence

/-!
# Which atoms wait

Atoms that contradict each other may be offered, as long as no violation is met: of two that spend a
coin the first one takes it, and the other waits for it in vain. Nothing offered is lost on the way,
and what waits has not been passed on. An atom may wait under two coins at once, because the first
coin that it misses changes when another atom spends one that was there.

Main statements: `Unsent.workInvariant` (no analysis passes on an atom that still waits) and
`pending_exact`.
-/

namespace ParticleLedger

/-! ## What waits has not been passed on -/

/-- Every atom heard of is accounted for, the view records what was passed on, and of no atom that
waits a copy has been passed on. -/
structure Unsent (scope : Scope) (T : Set Atom) (heard : List Atom) (s : LedgerView)
    (emitted work : List Atom) : Prop where
  kept : Kept scope T heard s emitted work
  records : s.Records scope emitted
  waiting_unsent : ∀ (k : ParticleId) (b : Atom), s.pending[k]? = some b →
    b.bare ∉ bareAtoms emitted

namespace Unsent

variable {scope : Scope} {T : Set Atom} {heard emitted work unblocked : List Atom}
  {s s' : LedgerView} {a : Atom}

theorem empty : Unsent scope T [] .empty [] [] :=
  ⟨.empty, .empty, by simp [LedgerView.empty]⟩

theorem hear (h : Unsent scope T heard s emitted []) (ha : a ∈ T) :
    Unsent scope T (heard ++ [a]) s emitted [a] :=
  ⟨h.kept.hear ha, h.records, h.waiting_unsent⟩

theorem known (h : Unsent scope T heard s emitted (a :: work)) (ha : a.id ∈ s.applied) :
    Unsent scope T heard s emitted work :=
  ⟨h.kept.known ha, h.records, h.waiting_unsent⟩

theorem blocked (h : Unsent scope T heard s emitted (a :: work))
    (hs : s.analyse scope a = .blocked s') : Unsent scope T heard s' emitted work := by
  refine ⟨h.kept.blocked hs, h.records.blocked hs, fun j x hx => ?_⟩
  obtain ⟨-, -, -, -, hfrom⟩ := LedgerView.pending_of_blocked hs
  rcases hfrom j x hx with hx | ⟨rfl, -⟩
  · exact h.waiting_unsent j x hx
  · rintro ⟨e, he, hbare⟩
    exact (LedgerView.analyse_eq_blocked hs).1
      ((h.records.applied_iff x.id).2 ⟨e, he, Atom.id_eq_of_bare hbare⟩)

/-- The atom that is applied is no copy of one that still waits: that one misses a coin. -/
theorem applied (h : Unsent scope T heard s emitted (a :: work))
    (hs : s.analyse scope a = .applied s' unblocked) :
    Unsent scope T heard s' (emitted ++ [a]) (unblocked ++ work) := by
  refine ⟨h.kept.applied hs, h.records.applied hs, ?_⟩
  obtain ⟨-, hfits, rfl, -⟩ := LedgerView.analyse_eq_applied hs
  intro j x hx
  have hbefore : s.pending[j]? = some x := (LedgerView.getElem?_release_eq_some_iff.1 hx).2
  rintro ⟨e, he, hbare⟩
  rcases List.mem_append.1 he with he | he
  · exact h.waiting_unsent j x hbefore ⟨e, he, hbare⟩
  · obtain rfl := List.mem_singleton.1 he
    obtain ⟨hj, hmissing⟩ := h.kept.waiting_missing j x hbefore
    rw [← Atom.consumed_eq_of_bare hbare] at hj
    exact hmissing (hfits.spends_present j hj)

/-- No analysis passes on an atom that still waits, or loses one. -/
theorem workInvariant : WorkInvariant scope (Unsent scope T heard) where
  known := known
  blocked := blocked
  applied := applied

/-- If names tell the atoms apart, none that waits has been applied. -/
theorem waiting_new (hnames : (Atom.bare '' T).InjOn Atom.id)
    (h : Unsent scope T heard s emitted work) {k : ParticleId} {b : Atom}
    (hb : s.pending[k]? = some b) : b.id ∉ s.applied := by
  intro happlied
  obtain ⟨e, he, hid⟩ := (h.records.applied_iff b.id).1 happlied
  have hbare : e.bare = b.bare :=
    hnames ⟨e, h.kept.emitted_mem e he, rfl⟩ ⟨b, h.kept.waiting_mem k b hb, rfl⟩ hid
  exact h.waiting_unsent k b hb ⟨e, he, hbare⟩

/-- With no work left, an atom heard of of which no copy was passed on waits, if names tell the atoms
apart. -/
theorem exists_waiting (hnames : (Atom.bare '' T).InjOn Atom.id)
    (h : Unsent scope T heard s emitted []) (ha : a ∈ heard) (haT : a ∈ T)
    (hnot : a.bare ∉ bareAtoms emitted) :
    ∃ (k : ParticleId) (b : Atom), s.pending[k]? = some b ∧ b.bare = a.bare := by
  rcases h.kept.accounted a ha with happlied | ⟨w, hw, -⟩ | ⟨k, b, hb, hid⟩
  · obtain ⟨e, he, hid⟩ := (h.records.applied_iff a.id).1 happlied
    exact absurd ⟨e, he, hnames ⟨e, h.kept.emitted_mem e he, rfl⟩ ⟨a, haT, rfl⟩ hid⟩ hnot
  · simp at hw
  · exact ⟨k, b, hb, hnames ⟨b, h.kept.waiting_mem k b hb, rfl⟩ ⟨a, haT, rfl⟩ hid⟩

end Unsent

/-! ## After any offers -/

namespace Reconciler

/-- While no violation was met, after any offers nothing is left to be worked through. -/
theorem unsent_acceptAll {scope : Scope} {offered : List Atom}
    (hrun : ((fresh scope).acceptAll offered).halted = none) :
    Unsent scope {a | a ∈ offered} offered ((fresh scope).acceptAll offered).view
      ((fresh scope).emissions offered) [] := by
  obtain ⟨heard, left, h, hend⟩ :=
    @WorkInvariant.acceptAll scope {a | a ∈ offered} (Unsent scope {a | a ∈ offered})
      (fun _ => Unsent.workInvariant) Unsent.empty Unsent.hear offered fun a ha => ha
  obtain ⟨rfl, rfl⟩ := hend hrun
  exact h

/-- As long as no violation was met, whatever was offered has been applied or waits, and whatever
waits was offered, has not been passed on and does so under a coin that it spends and that is not
there. If names tell the offered atoms apart, no atom that waits has been applied, and the atoms that
wait are those that were offered, have not been passed on and miss a coin that they spend. -/
theorem pending_exact (scope : Scope) (offered : List Atom)
    (hrun : ((fresh scope).acceptAll offered).halted = none) :
    let r := (fresh scope).acceptAll offered
    let S := bareAtoms offered
    let A := bareAtoms ((fresh scope).emissions offered)
    (∀ a ∈ offered, a.id ∈ r.view.applied ∨
      ∃ (k : ParticleId) (b : Atom), r.view.pending[k]? = some b ∧ b.id = a.id) ∧
    (∀ (k : ParticleId) (b : Atom), r.view.pending[k]? = some b →
      b ∈ offered ∧ b.bare ∉ A ∧ k ∈ scope.consumed b ∧ k ∉ r.view.unconsumed) ∧
    (S.InjOn Atom.id →
      (∀ (k : ParticleId) (b : Atom), r.view.pending[k]? = some b → b.id ∉ r.view.applied) ∧
      ∀ a, (∃ (k : ParticleId) (b : Atom), r.view.pending[k]? = some b ∧ b.bare = a) ↔
        a ∈ S \ A ∧ ∃ k ∈ scope.consumed a, k ∉ r.view.unconsumed) := by
  intro r S A
  have h : Unsent scope {a | a ∈ offered} offered r.view ((fresh scope).emissions offered) [] :=
    unsent_acceptAll hrun
  refine ⟨?_, ?_, fun hnames => ⟨fun k b hb => h.waiting_new hnames hb, fun a => ⟨?_, ?_⟩⟩⟩
  · intro a ha
    rcases h.kept.accounted a ha with happlied | ⟨w, hw, -⟩ | hwaits
    · exact .inl happlied
    · simp at hw
    · exact .inr hwaits
  · intro k b hb
    exact ⟨h.kept.waiting_mem k b hb, h.waiting_unsent k b hb, h.kept.waiting_missing k b hb⟩
  · rintro ⟨k, b, hb, rfl⟩
    exact ⟨⟨⟨b, h.kept.waiting_mem k b hb, rfl⟩, h.waiting_unsent k b hb⟩, k,
      h.kept.waiting_missing k b hb⟩
  · rintro ⟨⟨⟨d, hd, rfl⟩, hnot⟩, -⟩
    exact h.exists_waiting hnames hd hd hnot

/-- After a coin was created and spent, another atom that spends it has not been passed on and waits
for it. -/
theorem pending_exact_double_spend :
    let offered := [Sample.issue, Sample.spend, Sample.overspend]
    let r := (fresh Sample.scope).acceptAll offered
    r.halted = none ∧ (bareAtoms offered).InjOn Atom.id ∧
      ∃ (k : ParticleId) (b : Atom), r.view.pending[k]? = some b ∧ b.bare = Sample.overspend := by
  intro offered r
  obtain ⟨hpassed, hbefore, hnone⟩ :=
    emissions_of_orderly Sample.orderly_spend Sample.distinct_spend
  have hrecords := records_acceptAll Sample.scope [Sample.issue, Sample.spend]
  rw [hpassed] at hrecords
  obtain ⟨⟨-, hissue⟩, hspend⟩ : (Sample.issue.id ≠ Sample.spend.id ∧
      Sample.issue.id ≠ Sample.overspend.id) ∧ Sample.spend.id ≠ Sample.overspend.id := by
    simpa using Sample.distinct_double_spend
  have hother : ∀ e ∈ [Sample.issue, Sample.spend], e.id ≠ Sample.overspend.id := by
    simpa using ⟨hissue, hspend⟩
  have hnew : Sample.overspend.id ∉
      ((fresh Sample.scope).acceptAll [Sample.issue, Sample.spend]).view.applied := by
    rw [hrecords.applied_iff]
    rintro ⟨e, he, hid⟩
    exact hother e he hid
  have hgone : Sample.coin.id ∉
      ((fresh Sample.scope).acceptAll [Sample.issue, Sample.spend]).view.unconsumed := by
    rw [hrecords.unconsumed_eq, show [Sample.issue, Sample.spend] = [Sample.issue] ++ [Sample.spend]
      from rfl, LedgerView.replayAll_concat, LedgerView.mem_replay]
    simp
  have hmiss : ((fresh Sample.scope).acceptAll [Sample.issue, Sample.spend]).view.missing?
      Sample.scope Sample.overspend = some Sample.coin.id :=
    LedgerView.missing?_eq_some_iff.2 ⟨hgone, [], [Sample.coin.id], by simp, by simp⟩
  have haccept := LedgerView.accept_of_missing hnew hmiss (by simp [hnone])
  have hscope : ((fresh Sample.scope).acceptAll [Sample.issue, Sample.spend]).scope = Sample.scope :=
    scope_acceptAll _
  have hlast : r = (((fresh Sample.scope).acceptAll [Sample.issue, Sample.spend]).accept
      Sample.overspend).reconciler := rfl
  rw [accept_of_running hbefore, hscope, haccept] at hlast
  have hrun : r.halted = none := by rw [hlast]
  have hemitted : (fresh Sample.scope).emissions offered = [Sample.issue, Sample.spend] := by
    rw [show offered = [Sample.issue, Sample.spend] ++ [Sample.overspend] from rfl,
      emissions_concat, accept_of_running hbefore, hscope, haccept, hpassed]
    rfl
  have hnames : (bareAtoms offered).InjOn Atom.id :=
    injOn_id_bareAtoms Sample.distinct_double_spend
  refine ⟨hrun, hnames, ?_⟩
  refine (((pending_exact Sample.scope offered hrun).2.2 hnames).2 _).2 ⟨⟨?_, ?_⟩, ?_⟩
  · exact ⟨Sample.overspend, by simp [offered], rfl⟩
  · rw [hemitted]
    rintro ⟨e, he, hbare⟩
    exact hother e he (Atom.id_eq_of_bare hbare)
  · refine ⟨Sample.coin.id, by simp, ?_⟩
    rw [show (fresh Sample.scope).acceptAll offered = r from rfl, hlast]
    exact hgone

end Reconciler

end ParticleLedger
