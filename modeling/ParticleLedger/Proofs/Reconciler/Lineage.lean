import ParticleLedger.Proofs.Atom.Plain

/-!
# Who created a coin, and who spent it

In a history whose atoms each fit the coins left by those before them, every coin that is spent has
been created, and between two creations of a coin it has been spent. What a view remembers are the
unspent coins only: a coin that was spent may be created again, by another atom, and then spent
again. This module says what follows for the lineage of a coin, and that nothing else can go wrong.

Main statements: `createdOnce_iff_noRevival`, `NoRevival.mem_replayAll_iff` (without revivals the
coins that are there are those created and never spent), `lineage_exact` and
`spent_coin_is_created_again`.
-/

namespace ParticleLedger

open LedgerView (replayAll)

namespace Scope

variable {scope : Scope} {history : List Atom} {a e : Atom} {k : ParticleId}

/-- No relevant coin is created by two atoms of the history. -/
def CreatedOnce (scope : Scope) (history : List Atom) : Prop :=
  history.Pairwise fun a b => ∀ k ∈ scope.creates a, k ∉ scope.creates b

/-- No relevant coin is spent by two atoms of the history. -/
def SpentOnce (scope : Scope) (history : List Atom) : Prop :=
  history.Pairwise fun a b => ∀ k ∈ scope.consumed a, k ∉ scope.consumed b

/-- No atom of the history creates a relevant coin that one before it has spent. -/
def NoRevival (scope : Scope) (history : List Atom) : Prop :=
  history.Pairwise fun a b => ∀ k ∈ scope.consumed a, k ∉ scope.creates b

/-- A property of pairs holds along a longer history if it held along the shorter one and holds
between its atoms and the new one. -/
theorem pairwise_concat_iff {R : Atom → Atom → Prop} :
    (history ++ [a]).Pairwise R ↔ history.Pairwise R ∧ ∀ x ∈ history, R x a := by
  simp [List.pairwise_append]

/-! ## Orderly histories -/

/-- Every coin that an atom of the history spends was created by an atom of the history. -/
theorem Orderly.exists_creates (h : scope.Orderly history) (he : e ∈ history)
    (hk : k ∈ scope.consumed e) : ∃ x ∈ history, k ∈ scope.creates x := by
  obtain ⟨before, after, rfl⟩ := List.append_of_mem he
  have hpresent : k ∈ replayAll scope before := (h before e after rfl).spends_present k hk
  obtain ⟨first, x, rest, rfl, hx, -⟩ := LedgerView.mem_replayAll_iff.1 hpresent
  exact ⟨x, by simp, hx⟩

/-- Without revivals a coin that was spent is gone for good. -/
theorem NoRevival.not_mem_replayAll (hn : scope.NoRevival history) (h : scope.Orderly history)
    (he : e ∈ history) (hk : k ∈ scope.consumed e) : k ∉ replayAll scope history := by
  intro hmem
  obtain ⟨before, x, after, rfl, hx, hafter⟩ := LedgerView.mem_replayAll_iff.1 hmem
  rcases List.mem_append.1 he with hbefore | hrest
  · -- spent before it was created
    exact (List.pairwise_append.1 hn).2.2 e hbefore x List.mem_cons_self k hk hx
  · rcases List.mem_cons.1 hrest with rfl | hlater
    · exact (h before e after rfl).not_creates hk hx
    · exact hafter e hlater hk

/-- A coin is created twice exactly if it is created after it was spent. -/
theorem createdOnce_iff_noRevival (h : scope.Orderly history) :
    scope.CreatedOnce history ↔ scope.NoRevival history := by
  induction history using List.reverseRecOn with
  | nil => simp [CreatedOnce, NoRevival]
  | append_singleton history a ih =>
    obtain ⟨hbefore, hfits⟩ := orderly_concat_iff.1 h
    unfold CreatedOnce NoRevival
    rw [pairwise_concat_iff, pairwise_concat_iff]
    refine and_congr (ih hbefore) ⟨?_, ?_⟩
    · intro hcreated x hx k hk hka
      obtain ⟨y, hy, hyk⟩ := hbefore.exists_creates hx hk
      exact hcreated y hy k hyk hka
    · intro hspent x hx k hk hka
      -- the coin is not there now, so it was spent after `x` created it
      have habsent : k ∉ replayAll scope history := hfits.creates_absent k hka
      obtain ⟨first, rest, rfl⟩ := List.append_of_mem hx
      have hlater : ¬∀ y ∈ rest, k ∉ scope.consumed y := fun hall =>
        habsent (LedgerView.mem_replayAll_iff.2 ⟨first, x, rest, rfl, hk, hall⟩)
      push Not at hlater
      obtain ⟨y, hy, hyk⟩ := hlater
      exact hspent y (by simp [hy]) k hyk hka

/-- Without revivals no coin is spent twice. -/
theorem NoRevival.spentOnce (hn : scope.NoRevival history) (h : scope.Orderly history) :
    scope.SpentOnce history := by
  induction history using List.reverseRecOn with
  | nil => simp [SpentOnce]
  | append_singleton history a ih =>
    obtain ⟨hbefore, hfits⟩ := orderly_concat_iff.1 h
    have hn' : scope.NoRevival history := (pairwise_concat_iff.1 hn).1
    unfold SpentOnce
    rw [pairwise_concat_iff]
    refine ⟨ih hn' hbefore, ?_⟩
    intro x hx k hk hka
    exact hn'.not_mem_replayAll hbefore hx hk (hfits.spends_present k hka)

/-- Without revivals the coins that are there are those that were created and never spent. -/
theorem NoRevival.mem_replayAll_iff (hn : scope.NoRevival history) (h : scope.Orderly history) :
    k ∈ replayAll scope history ↔
      (∃ e ∈ history, k ∈ scope.creates e) ∧ ∀ e ∈ history, k ∉ scope.consumed e := by
  constructor
  · intro hmem
    refine ⟨?_, fun e he hk => hn.not_mem_replayAll h he hk hmem⟩
    obtain ⟨before, e, after, rfl, hk, -⟩ := LedgerView.mem_replayAll_iff.1 hmem
    exact ⟨e, by simp, hk⟩
  · rintro ⟨⟨e, he, hk⟩, hunspent⟩
    obtain ⟨before, after, rfl⟩ := List.append_of_mem he
    exact LedgerView.mem_replayAll_iff.2
      ⟨before, e, after, rfl, hk, fun x hx => hunspent x (by simp [hx])⟩

end Scope

/-! ## Known atoms -/

namespace LedgerView

variable {scope : Scope} {s : LedgerView} {work : List Atom} {id : AtomId} {k : ParticleId}

/-- An atom that is known stays known while the view works. -/
theorem knownInvariant (scope : Scope) (id : AtomId) :
    WorkInvariant scope fun s _ _ => id ∈ s.applied where
  known h _ := h
  blocked h hs := by
    obtain ⟨-, k, -, ⟨-, rfl⟩ | ⟨b, -, -, rfl⟩⟩ := analyse_eq_blocked hs <;> exact h
  applied h hs := by
    obtain ⟨-, -, rfl, -⟩ := analyse_eq_applied hs
    simp [h]

/-- A known atom is not refused for what it creates. -/
theorem not_recreated_of_known (h : id ∈ s.applied) :
    (s.run scope work).violation ≠ some (.recreatedParticle id k) := by
  intro hviolation
  obtain ⟨left, hknown, hend⟩ := @WorkInvariant.run _ _ (knownInvariant scope id) s [] work h
  rw [hviolation] at hend
  obtain ⟨b, rest, rfl, hrefused⟩ := hend
  obtain ⟨hnew, ⟨_, _, _, _, _, hcause⟩ | ⟨_, _, _, hcause⟩⟩ := analyse_eq_refused hrefused
  · cases hcause
  · injection hcause with hid _
    exact hnew (hid ▸ hknown)

end LedgerView

/-! ## What a reconciler lets through -/

namespace Reconciler

variable {r : Reconciler} {a : Atom}

/-- An atom whose turn has come is refused exactly if it creates a coin that is there, or one
twice. -/
theorem accept_recreated_iff (hrun : r.halted = none) (hnew : a.id ∉ r.view.applied)
    (hmiss : r.view.missing? r.scope a = none) :
    (∃ k, (r.accept a).result = .error (.consistencyViolation (.recreatedParticle a.id k))) ↔
      ¬(r.scope.creates a).Nodup ∨ ∃ k ∈ r.scope.creates a, k ∈ r.view.unconsumed := by
  have hresult : ∀ cause, (r.accept a).result = .error (.consistencyViolation cause) ↔
      (r.view.accept r.scope a).violation = some cause := by
    intro cause
    rw [accept_of_running hrun, Accepted.result]
    cases (r.view.accept r.scope a).violation <;> simp
  simp only [hresult]
  constructor
  · rintro ⟨k, hviolation⟩
    by_contra hfine
    push Not at hfine
    obtain ⟨hnodup, habsent⟩ := hfine
    have hfits : r.scope.Fits r.view.unconsumed a :=
      ⟨LedgerView.missing?_eq_none_iff.1 hmiss, habsent, hnodup⟩
    -- The atom is applied, and whatever is refused later in the run is another one.
    rw [LedgerView.accept, LedgerView.run_of_applied (LedgerView.analyse_of_fits hnew hfits)]
      at hviolation
    exact LedgerView.not_recreated_of_known (by simp) hviolation
  · intro hwrong
    cases hcreate : r.view.recreated? [] (r.scope.creates a) with
    | none =>
      obtain ⟨habsent, hnodup⟩ := LedgerView.recreated?_eq_none_iff.1 hcreate
      rcases hwrong with htwice | ⟨k, hk, hpresent⟩
      · exact absurd hnodup htwice
      · exact absurd hpresent (habsent k hk).1
    | some k =>
      have hrefused : r.view.analyse r.scope a = .refused (.recreatedParticle a.id k) :=
        LedgerView.decides_iff.1 (.recreates hnew hmiss hcreate)
      exact ⟨k, by rw [LedgerView.accept, LedgerView.run_of_refused hrefused]⟩

/-- The atoms that a reconciler passes on create and spend each coin once, and leave no coin unspent
that one of them has spent, exactly if none of them creates a coin that one before it has spent. And
an atom whose turn has come is refused exactly if it creates a coin twice, or one that was created
and has not been spent since: a coin that was created and spent is created again. -/
theorem lineage_exact (scope : Scope) (offered : List Atom) :
    let r := (fresh scope).acceptAll offered
    let emitted := (fresh scope).emissions offered
    (scope.CreatedOnce emitted ∧ scope.SpentOnce emitted ∧
        (∀ e ∈ emitted, ∀ k ∈ scope.consumed e, k ∉ r.view.unconsumed) ↔
      scope.NoRevival emitted) ∧
    ∀ a, r.halted = none → a.id ∉ r.view.applied → r.view.missing? scope a = none →
      ((∃ k, (r.accept a).result = .error (.consistencyViolation (.recreatedParticle a.id k))) ↔
        ¬(scope.creates a).Nodup ∨ ∃ k ∈ scope.creates a,
          ∃ before e after, emitted = before ++ e :: after ∧ k ∈ scope.creates e ∧
            ∀ x ∈ after, k ∉ scope.consumed x) := by
  intro r emitted
  have h : r.view.Records scope emitted := records_acceptAll scope offered
  have hscope : r.scope = scope := scope_acceptAll offered
  constructor
  · constructor
    · rintro ⟨hcreated, -, -⟩
      exact (Scope.createdOnce_iff_noRevival h.orderly).1 hcreated
    · intro hn
      refine ⟨(Scope.createdOnce_iff_noRevival h.orderly).2 hn, hn.spentOnce h.orderly, ?_⟩
      intro e he k hk
      rw [h.unconsumed_eq]
      exact hn.not_mem_replayAll h.orderly he hk
  · intro a hrun hnew hmiss
    rw [← hscope] at hmiss
    rw [accept_recreated_iff hrun hnew hmiss, hscope]
    simp only [h.unconsumed_eq, LedgerView.mem_replayAll_iff]

/-- An atom that creates a coin, one that spends it and one that creates it again are all passed on;
the coin is created twice, and is there after it was spent. -/
theorem spent_coin_is_created_again :
    let r := (fresh Sample.scope).acceptAll [Sample.issue, Sample.spend, Sample.reissue]
    let emitted := (fresh Sample.scope).emissions [Sample.issue, Sample.spend, Sample.reissue]
    r.halted = none ∧ emitted = [Sample.issue, Sample.spend, Sample.reissue] ∧
      (emitted.map Atom.id).Nodup ∧ ¬Sample.scope.CreatedOnce emitted ∧
      Sample.coin.id ∈ Sample.scope.creates Sample.issue ∧
      Sample.coin.id ∈ Sample.scope.consumed Sample.spend ∧
      Sample.coin.id ∈ Sample.scope.creates Sample.reissue ∧
      Sample.coin.id ∈ r.view.unconsumed := by
  intro r emitted
  obtain ⟨hpassed, hrun, -⟩ := emissions_of_orderly Sample.orderly_reissue Sample.distinct_reissue
  refine ⟨hrun, hpassed, ?_, ?_, by simp, by simp, by simp, ?_⟩
  · rw [show emitted = _ from hpassed]
    exact Sample.distinct_reissue
  · rw [show emitted = _ from hpassed]
    simp [Scope.CreatedOnce]
  · rw [(records_acceptAll Sample.scope _).unconsumed_eq, hpassed]
    exact LedgerView.mem_replayAll_iff.2
      ⟨[Sample.issue, Sample.spend], Sample.reissue, [], rfl, by simp, by simp⟩

end Reconciler

end ParticleLedger
