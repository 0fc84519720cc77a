import ParticleLedger.Proofs.Atom.Plain

/-!
# What a violation leaves behind

An offer may set off a chain of analyses, and a violation may be met anywhere along it. `Works` is
that chain, one analysis after another. Each analysis either changes the view by the whole of one
atom or leaves it alone, and an atom that is refused leaves it alone; so a chain that breaks off has
changed the view by the atoms applied before the break, which are the ones passed on.

Main statements: `works_run` (a run is a chain), `Works.extends` (what a chain does to the view),
`extends_accept` (so does every offer) and `violation_contained`.
-/

namespace ParticleLedger

open LedgerView (replay)

namespace LedgerView

variable {scope : Scope} {s before after : LedgerView} {work left sent unblocked : List Atom}
  {a : Atom}

/-! ## Chains of analyses -/

/-- A view works through some atoms, one analysis after another. Those applied on the way are listed
in order, and the rest of the work is left. -/
inductive Works (scope : Scope) (s : LedgerView) (work : List Atom) :
    List Atom → LedgerView → List Atom → Prop
  | start : Works scope s work [] s work
  | known {sent left : List Atom} {before : LedgerView} {a : Atom}
      (h : Works scope s work sent before (a :: left))
      (hknown : before.analyse scope a = .known) : Works scope s work sent before left
  | blocked {sent left : List Atom} {before after : LedgerView} {a : Atom}
      (h : Works scope s work sent before (a :: left))
      (hblocked : before.analyse scope a = .blocked after) : Works scope s work sent after left
  | applied {sent left unblocked : List Atom} {before after : LedgerView} {a : Atom}
      (h : Works scope s work sent before (a :: left))
      (happlied : before.analyse scope a = .applied after unblocked) :
      Works scope s work (sent ++ [a]) after (unblocked ++ left)

theorem Works.workInvariant (scope : Scope) (s : LedgerView) (work : List Atom) :
    WorkInvariant scope fun after sent left => Works scope s work sent after left where
  known h hknown := h.known (analyse_eq_known_iff.2 hknown)
  blocked h hblocked := h.blocked hblocked
  applied h happlied := h.applied happlied

/-- A run is a chain of analyses, which applies the atoms that the run passes on. It ends with no
work left, or at an atom that is refused. -/
theorem works_run (scope : Scope) (s : LedgerView) (work : List Atom) :
    ∃ left, Works scope s work (s.run scope work).emitted (s.run scope work).view left ∧
      match (s.run scope work).violation with
      | none => left = []
      | some cause => ∃ a rest, left = a :: rest ∧
          (s.run scope work).view.analyse scope a = .refused cause := by
  have h := @WorkInvariant.run _ _ (Works.workInvariant scope s work) s [] work .start
  simp only [List.nil_append] at h
  exact h

/-! ## What a chain does to the view -/

/-- The view has been extended by some atoms: they were new and distinct, they are known now, and
what they spend and create has been replayed on the unspent coins. -/
structure Extends (scope : Scope) (s : LedgerView) (sent : List Atom) (after : LedgerView) :
    Prop where
  new : ∀ e ∈ sent, e.id ∉ s.applied
  distinct : (sent.map Atom.id).Nodup
  applied_iff : ∀ id, id ∈ after.applied ↔ id ∈ s.applied ∨ ∃ e ∈ sent, e.id = id
  unconsumed_eq : after.unconsumed = sent.foldl (replay scope) s.unconsumed

namespace Extends

theorem refl (scope : Scope) (s : LedgerView) : Extends scope s [] s where
  new e he := absurd he List.not_mem_nil
  distinct := List.nodup_nil
  applied_iff id := by simp
  unconsumed_eq := rfl

/-- An atom that waits is no part of the extension. -/
theorem blocked (h : Extends scope s sent before) (hs : before.analyse scope a = .blocked after) :
    Extends scope s sent after := by
  obtain ⟨-, k, -, ⟨-, rfl⟩ | ⟨b, -, -, rfl⟩⟩ := analyse_eq_blocked hs
  · exact ⟨h.new, h.distinct, h.applied_iff, h.unconsumed_eq⟩
  · exact h

/-- An atom that is applied extends the view by one more. -/
theorem applied (h : Extends scope s sent before)
    (hs : before.analyse scope a = .applied after unblocked) :
    Extends scope s (sent ++ [a]) after := by
  obtain ⟨hunknown, -, rfl, -⟩ := analyse_eq_applied hs
  rw [h.applied_iff, not_or, not_exists] at hunknown
  obtain ⟨hnew, hother⟩ := hunknown
  refine ⟨?_, ?_, fun id => ?_, ?_⟩
  · intro e he
    rcases List.mem_append.1 he with he | he
    · exact h.new e he
    · rwa [List.mem_singleton.1 he]
  · rw [List.map_append, List.nodup_append]
    refine ⟨h.distinct, by simp, ?_⟩
    rintro _ hx _ hy rfl
    obtain ⟨e, he, hid⟩ := List.mem_map.1 hx
    obtain rfl := List.mem_singleton.1 hy
    exact hother e ⟨he, hid⟩
  · rw [Std.ExtTreeSet.mem_insert, Std.compare_eq_iff_eq, h.applied_iff]
    simp only [List.mem_append, List.mem_singleton, or_and_right, exists_or, exists_eq_left]
    rw [or_comm, or_assoc]
  · rw [List.foldl_append, ← h.unconsumed_eq]
    rfl

end Extends

/-- A chain extends the view by the atoms that it applies. -/
theorem Works.extends (h : Works scope s work sent after left) : Extends scope s sent after := by
  induction h with
  | start => exact .refl scope s
  | known _ _ ih => exact ih
  | blocked _ hblocked ih => exact ih.blocked hblocked
  | applied _ happlied ih => exact ih.applied happlied

end LedgerView

/-! ## Offers that fail -/

namespace Reconciler

variable {r : Reconciler} {a : Atom}

/-- Once a violation was met, nothing changes any more. -/
theorem acceptAll_of_halted {reason : Violation} (h : r.halted = some reason)
    (later : List Atom) : r.acceptAll later = r := by
  induction later with
  | nil => rfl
  | cons x rest ih =>
    show (r.accept x).reconciler.acceptAll rest = r
    rw [accept_of_halted h]
    exact ih

/-- And every offer is refused. -/
theorem accept_acceptAll_of_halted {reason : Violation} (h : r.halted = some reason)
    (later : List Atom) (b : Atom) :
    (r.acceptAll later).accept b = ⟨r, [], some (.halted r.scope.address reason)⟩ := by
  rw [acceptAll_of_halted h, accept_of_halted h]

/-- Who has met no violation had met none before. -/
theorem running_of_front {first offered : List Atom} (hinit : first <+: offered)
    (h : (r.acceptAll offered).halted = none) : (r.acceptAll first).halted = none := by
  obtain ⟨later, rfl⟩ := hinit
  have happend : r.acceptAll (first ++ later) = (r.acceptAll first).acceptAll later := by
    simp [acceptAll]
  cases hfirst : (r.acceptAll first).halted with
  | none => rfl
  | some reason =>
    rw [happend, acceptAll_of_halted hfirst, hfirst] at h
    contradiction

/-- An offer fails with a violation and in no other way, and the reconciler has halted then. -/
theorem halted_of_result_error {e : LedgerError} (h : (r.accept a).result = .error e) :
    (∃ cause, e = .consistencyViolation cause ∧ (r.accept a).error = some cause) ∧
      ∃ reason, (r.accept a).reconciler.halted = some reason := by
  have herror : ∃ cause, e = .consistencyViolation cause ∧ (r.accept a).error = some cause := by
    unfold Accepted.result at h
    cases hcause : (r.accept a).error with
    | none => simp [hcause] at h
    | some cause =>
      simp only [hcause, Except.error.injEq] at h
      exact ⟨cause, h.symm, rfl⟩
  refine ⟨herror, ?_⟩
  obtain ⟨cause, -, hcause⟩ := herror
  cases hrun : r.halted with
  | none =>
    rw [accept_of_running hrun] at hcause ⊢
    exact ⟨cause, hcause⟩
  | some reason =>
    rw [accept_of_halted hrun]
    exact ⟨reason, hrun⟩

/-- Whether or not it fails, an offer extends the view by the atoms that it passes on. -/
theorem extends_accept (r : Reconciler) (a : Atom) :
    LedgerView.Extends r.scope r.view (r.accept a).emitted (r.accept a).reconciler.view := by
  cases hrun : r.halted with
  | none =>
    rw [accept_of_running hrun]
    obtain ⟨left, hworks, -⟩ := LedgerView.works_run r.scope r.view [a]
    exact hworks.extends
  | some earlier =>
    rw [accept_of_halted hrun]
    exact .refl r.scope r.view

/-- An offer that fails was a chain of analyses that broke off at an atom that was refused. -/
theorem works_of_error {cause : Violation} (hrun : r.halted = none)
    (herror : (r.accept a).error = some cause) : ∃ culprit rest,
    LedgerView.Works r.scope r.view [a] (r.accept a).emitted (r.accept a).reconciler.view
      (culprit :: rest) ∧
    (r.accept a).reconciler.view.analyse r.scope culprit = .refused cause := by
  rw [accept_of_running hrun] at herror ⊢
  obtain ⟨left, hworks, hend⟩ := LedgerView.works_run r.scope r.view [a]
  rw [show (r.view.run r.scope [a]).violation = some cause from herror] at hend
  obtain ⟨culprit, rest, rfl, hrefused⟩ := hend
  exact ⟨culprit, rest, hworks, hrefused⟩

/-- **A violation is contained.** Let an offer fail. The error is a violation, which is fatal. The
offer was a chain of analyses that broke off at an atom that was refused, unless the reconciler had
halted before, and then nothing happened at all. The atoms applied in the chain are posted to every
subscriber, become known, and have what they spend and create replayed on the unspent coins; no
other atom has any of this, the refused one included. And whatever is offered from then on is refused
with a fatal violation, nothing is passed on, and the reconciler stays as it is. -/
theorem violation_contained (r : Reconciler) (a : Atom) {e : LedgerError}
    (hfails : (r.accept a).result = .error e) :
    let after := (r.accept a).reconciler
    let sent := (r.accept a).emitted
    (∃ cause, e = .consistencyViolation cause ∧ e.isFatal ∧
      (r.halted = none → ∃ culprit rest,
        LedgerView.Works r.scope r.view [a] sent after.view (culprit :: rest) ∧
        after.view.analyse r.scope culprit = .refused cause ∧
        culprit.id ∉ after.view.applied ∧ culprit ∉ sent) ∧
      (r.halted ≠ none → sent = [] ∧ after = r)) ∧
    (∀ subscriber, after.subscribers.inbox? subscriber =
      (r.subscribers.inbox? subscriber).map (· ++ sent)) ∧
    ((∀ x ∈ sent, x.id ∉ r.view.applied) ∧ (sent.map Atom.id).Nodup ∧
      ∀ id, id ∈ after.view.applied ↔ id ∈ r.view.applied ∨ ∃ x ∈ sent, x.id = id) ∧
    after.view.unconsumed = sent.foldl (replay r.scope) r.view.unconsumed ∧
    ∀ (later : List Atom) (b : Atom), let next := (after.acceptAll later).accept b
      (∃ cause, next.result = .error (.consistencyViolation cause) ∧
        (LedgerError.consistencyViolation cause).isFatal) ∧
      next.emitted = [] ∧ next.reconciler = after := by
  intro after sent
  obtain ⟨⟨cause, rfl, hcause⟩, reason, hreason⟩ := halted_of_result_error hfails
  have hextends : LedgerView.Extends r.scope r.view sent after.view := extends_accept r a
  refine ⟨⟨cause, rfl, rfl, ?_, ?_⟩, inbox?_accept r a,
    ⟨hextends.new, hextends.distinct, hextends.applied_iff⟩, hextends.unconsumed_eq, ?_⟩
  · intro hrun
    obtain ⟨culprit, rest, hworks, hrefused⟩ := works_of_error hrun hcause
    have hunknown : culprit.id ∉ after.view.applied := (LedgerView.analyse_eq_refused hrefused).1
    refine ⟨culprit, rest, hworks, hrefused, hunknown, fun hsent => hunknown ?_⟩
    exact (hextends.applied_iff _).2 (.inr ⟨culprit, hsent, rfl⟩)
  · intro hrun
    obtain ⟨earlier, hearlier⟩ := Option.ne_none_iff_exists'.1 hrun
    simp [after, sent, accept_of_halted hearlier]
  · intro later b next
    have hnext : next = ⟨after, [], some (.halted after.scope.address reason)⟩ :=
      accept_acceptAll_of_halted hreason later b
    rw [hnext]
    exact ⟨⟨.halted after.scope.address reason, rfl, rfl⟩, rfl, rfl⟩

end Reconciler

/-! ## A violation behind an atom that is applied -/

namespace Sample

/-- A view in which an atom waits for the coin that it spends and creates again. -/
def waiting : LedgerView :=
  { LedgerView.empty with pending := LedgerView.empty.pending.insert coin.id renew }

/-- The view after the coin was created and its creation has released the atom. -/
def released : LedgerView :=
  ⟨replay scope waiting.unconsumed issue, (LedgerView.release waiting.pending (scope.creates issue)).1,
    waiting.applied.insert issue.id⟩

theorem accept_renew : LedgerView.empty.accept scope renew = ⟨waiting, [], none⟩ := by
  have hmiss : LedgerView.empty.missing? scope renew = some coin.id :=
    LedgerView.missing?_eq_some_iff.2 ⟨by simp [LedgerView.empty], [], [], by simp, by simp⟩
  exact LedgerView.accept_of_missing (by simp [LedgerView.empty]) hmiss (by simp [LedgerView.empty])

/-- The atom that creates the coin fits. -/
theorem analyse_issue : waiting.analyse scope issue = .applied released [renew] := by
  have hfits : scope.Fits waiting.unconsumed issue := by
    constructor <;> simp [waiting, LedgerView.empty]
  have hreleased : (LedgerView.release waiting.pending (scope.creates issue)).2 = [renew] := by
    simp [waiting, LedgerView.release]
  rw [LedgerView.analyse_of_fits (by simp [waiting, LedgerView.empty]) hfits, hreleased]
  rfl

/-- The coin that the released atom creates is there. -/
theorem analyse_renew :
    released.analyse scope renew = .refused (.recreatedParticle renew.id coin.id) := by
  have hne : issue.id ≠ renew.id := by
    have hdistinct := distinct_renew
    simpa using hdistinct
  refine LedgerView.decides_iff.1 (.recreates ?_ (LedgerView.missing?_eq_none_iff.2 ?_) ?_)
  · simp [released, waiting, LedgerView.empty, hne]
  · simp [released, LedgerView.mem_replay]
  · simp [released, LedgerView.recreated?, LedgerView.mem_replay]

theorem accept_issue : waiting.accept scope issue =
    ⟨released, [issue], some (.recreatedParticle renew.id coin.id)⟩ := by
  rw [LedgerView.accept, LedgerView.run_of_applied analyse_issue, List.append_nil,
    LedgerView.run_of_refused analyse_renew]

end Sample

namespace Reconciler

/-- An atom waits for a coin that it spends and creates again. The atom that creates the coin is
applied and passed on; the one that waited is refused then, and leaves no trace. -/
theorem violation_contained_behind_an_issue :
    let r := (fresh Sample.scope).acceptAll [Sample.renew]
    let after := (r.accept Sample.issue).reconciler
    (r.accept Sample.issue).result = .error (.consistencyViolation
      (.recreatedParticle Sample.renew.id Sample.coin.id)) ∧
      (r.accept Sample.issue).emitted = [Sample.issue] ∧
      after.view.unconsumed = replay Sample.scope r.view.unconsumed Sample.issue ∧
      (after.accept Sample.spend).emitted = [] ∧
      (after.accept Sample.spend).reconciler = after := by
  intro r after
  have hwaits : r.halted = none ∧ r.view = Sample.waiting := by
    show ((fresh Sample.scope).accept Sample.renew).reconciler.halted = none ∧
      ((fresh Sample.scope).accept Sample.renew).reconciler.view = Sample.waiting
    rw [accept_of_running rfl]
    exact ⟨congrArg Outcome.violation Sample.accept_renew, congrArg Outcome.view Sample.accept_renew⟩
  obtain ⟨hrun, hview⟩ := hwaits
  have hscope : r.scope = Sample.scope := scope_acceptAll _
  have hoffer : (r.accept Sample.issue).emitted = [Sample.issue] ∧
      (r.accept Sample.issue).error =
        some (.recreatedParticle Sample.renew.id Sample.coin.id) := by
    rw [accept_of_running hrun, hscope, hview, Sample.accept_issue]
    exact ⟨rfl, rfl⟩
  obtain ⟨hsent, herror⟩ := hoffer
  have hfails : (r.accept Sample.issue).result = .error (.consistencyViolation
      (.recreatedParticle Sample.renew.id Sample.coin.id)) := by
    rw [Accepted.result, herror]
  obtain ⟨-, -, -, hunconsumed, hlater⟩ := violation_contained r Sample.issue hfails
  rw [hsent, hscope] at hunconsumed
  exact ⟨hfails, hsent, hunconsumed, (hlater [] Sample.spend).2⟩

end Reconciler

end ParticleLedger
