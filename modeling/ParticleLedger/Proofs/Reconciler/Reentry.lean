import ParticleLedger.Proofs.Reconciler.WorkLoop

/-!
# Offers by recursion

An offer can be understood without a stack: when an atom is applied, everything that waited for one
of its coins is offered in turn, in the order of the coins, each atom with all that follows from it,
and the first violation ends it all. `Reenters` and `ReentersAll` are this recursion, as rules.

The work loop does the same. What has to be seen is that working through some atoms in front of
others is working through them first (`run_append`), so that all that follows from one atom is
finished before the next atom has its turn.

Main statements: `run_append`, `Reenters.accept_eq` and `ReentersAll.run_eq` (the rules give nothing
but what a run gives), `exists_reentersAll` (they always give something) and `accept_iff_reenters`.
-/

namespace ParticleLedger

/-! ## The rules -/

namespace LedgerView

/-- The atoms that wait for one of the coins that an atom creates, in the order of the coins. -/
def waitingFor (s : LedgerView) (scope : Scope) (a : Atom) : List Atom :=
  (scope.creates a).filterMap fun k => s.pending[k]?

end LedgerView

mutual

/-- What comes of offering an atom, by recursion. -/
inductive Reenters (scope : Scope) : LedgerView → Atom → Outcome → Prop
  /-- An atom that was applied before is ignored. -/
  | ignored {s : LedgerView} {a : Atom} (h : LedgerView.Decides scope s a .known) :
      Reenters scope s a ⟨s, [], none⟩
  /-- An atom that misses a coin waits. -/
  | blocked {s after : LedgerView} {a : Atom} (h : LedgerView.Decides scope s a (.blocked after)) :
      Reenters scope s a ⟨after, [], none⟩
  /-- An atom that contradicts what is known fails and changes nothing. -/
  | refused {s : LedgerView} {a : Atom} {cause : Violation}
      (h : LedgerView.Decides scope s a (.refused cause)) : Reenters scope s a ⟨s, [], some cause⟩
  /-- An atom that fits is applied and passed on, and then what waited for its coins is offered. -/
  | applied {s after : LedgerView} {a : Atom} {unblocked : List Atom} {later : Outcome}
      (h : LedgerView.Decides scope s a (.applied after unblocked))
      (hlater : ReentersAll scope after (s.waitingFor scope a) later) :
      Reenters scope s a { later with emitted := a :: later.emitted }

/-- What comes of offering some atoms in turn, by recursion. -/
inductive ReentersAll (scope : Scope) : LedgerView → List Atom → Outcome → Prop
  | done {s : LedgerView} : ReentersAll scope s [] ⟨s, [], none⟩
  /-- An offer that fails is the last one. -/
  | fails {s : LedgerView} {a : Atom} {rest : List Atom} {first : Outcome} {cause : Violation}
      (h : Reenters scope s a first) (hcause : first.violation = some cause) :
      ReentersAll scope s (a :: rest) first
  /-- An offer that does not fail is finished before the next one. -/
  | goesOn {s : LedgerView} {a : Atom} {rest : List Atom} {first later : Outcome}
      (h : Reenters scope s a first) (hnone : first.violation = none)
      (hlater : ReentersAll scope first.view rest later) :
      ReentersAll scope s (a :: rest) { later with emitted := first.emitted ++ later.emitted }

end

/-! ## One part of the work after another -/

/-- The outcome followed by what is done next, unless it is a violation. -/
def Outcome.andThen (first : Outcome) (next : LedgerView → Outcome) : Outcome :=
  match first.violation with
  | some _ => first
  | none => { next first.view with emitted := first.emitted ++ (next first.view).emitted }

theorem Outcome.andThen_of_some {first : Outcome} {cause : Violation}
    (h : first.violation = some cause) (next : LedgerView → Outcome) :
    first.andThen next = first := by
  simp [andThen, h]

theorem Outcome.andThen_of_none {first : Outcome} (h : first.violation = none)
    (next : LedgerView → Outcome) : first.andThen next =
      { next first.view with emitted := first.emitted ++ (next first.view).emitted } := by
  simp [andThen, h]

/-- An atom passed on before all that stays in front of what is done next. -/
theorem Outcome.andThen_cons (o : Outcome) (a : Atom) (next : LedgerView → Outcome) :
    { o with emitted := a :: o.emitted }.andThen next =
      { o.andThen next with emitted := a :: (o.andThen next).emitted } := by
  cases h : o.violation <;> simp [andThen, h]

namespace LedgerView

variable {scope : Scope} {s after : LedgerView} {a : Atom} {o : Outcome}
  {first rest work unblocked : List Atom}

theorem Decides.unblocked_eq (h : Decides scope s a (.applied after unblocked)) :
    unblocked = s.waitingFor scope a := by
  obtain ⟨-, hfits, -, rfl⟩ := analyse_eq_applied (decides_iff.1 h)
  exact release_of_nodup hfits.creates_nodup

/-- Work in front of other work is done first, and if it fails the other work is not begun. -/
theorem run_append (scope : Scope) (s : LedgerView) (first rest : List Atom) :
    s.run scope (first ++ rest) =
      (s.run scope first).andThen fun after => after.run scope rest := by
  fun_induction LedgerView.run scope s first with
  | case1 s => simp [Outcome.andThen]
  | case2 s a work hknown ih => rw [List.cons_append, run_of_known hknown, ih]
  | case3 s a work after hblocked ih => rw [List.cons_append, run_of_blocked hblocked, ih]
  | case4 s a work cause hrefused =>
    rw [List.cons_append, run_of_refused hrefused, Outcome.andThen_of_some rfl]
  | case5 s a work after unblocked happlied later ih =>
    rw [List.cons_append, run_of_applied happlied, Outcome.andThen_cons, ← ih, List.append_assoc]

/-- The first atom is offered, and then the others. -/
theorem run_cons (scope : Scope) (s : LedgerView) (a : Atom) (rest : List Atom) :
    s.run scope (a :: rest) = (s.accept scope a).andThen fun after => after.run scope rest :=
  run_append scope s [a] rest

end LedgerView

/-! ## The rules give what a run gives -/

mutual

theorem Reenters.accept_eq {scope : Scope} {s : LedgerView} {a : Atom} {o : Outcome}
    (h : Reenters scope s a o) : s.accept scope a = o := by
  match h with
  | .ignored h =>
    rw [LedgerView.accept, LedgerView.run_of_known (LedgerView.decides_iff.1 h), LedgerView.run]
  | .blocked h =>
    rw [LedgerView.accept, LedgerView.run_of_blocked (LedgerView.decides_iff.1 h), LedgerView.run]
  | .refused h => exact LedgerView.run_of_refused (LedgerView.decides_iff.1 h)
  | .applied h hlater =>
    rw [LedgerView.accept, LedgerView.run_of_applied (LedgerView.decides_iff.1 h), List.append_nil,
      h.unblocked_eq, hlater.run_eq]
termination_by structural h

theorem ReentersAll.run_eq {scope : Scope} {s : LedgerView} {work : List Atom} {o : Outcome}
    (h : ReentersAll scope s work o) : s.run scope work = o := by
  match h with
  | .done => rw [LedgerView.run]
  | .fails h hcause =>
    rw [LedgerView.run_cons, h.accept_eq, Outcome.andThen_of_some hcause]
  | .goesOn h hnone hlater =>
    rw [LedgerView.run_cons, h.accept_eq, Outcome.andThen_of_none hnone, hlater.run_eq]
termination_by structural h

end

/-! ## The rules always give something -/

/-- What comes of some work in front of other work says what comes of either. -/
theorem ReentersAll.split {scope : Scope} {s : LedgerView} {front rest : List Atom} {o : Outcome}
    (h : ReentersAll scope s (front ++ rest) o) : ∃ first, ReentersAll scope s front first ∧
      (first.violation = none → ∃ later, ReentersAll scope first.view rest later) := by
  induction front generalizing s o with
  | nil => exact ⟨_, .done, fun _ => ⟨o, h⟩⟩
  | cons a front ih =>
    cases h with
    | fails h hcause =>
      refine ⟨_, .fails h hcause, fun hnone => ?_⟩
      rw [hnone] at hcause
      contradiction
    | goesOn h hnone hlater =>
      obtain ⟨first, hfirst, hrest⟩ := ih hlater
      exact ⟨_, .goesOn h hnone hfirst, hrest⟩

/-- The work loop ends, and so does the recursion. -/
theorem exists_reentersAll (scope : Scope) (s : LedgerView) (work : List Atom) :
    ∃ o, ReentersAll scope s work o := by
  fun_induction LedgerView.run scope s work with
  | case1 s => exact ⟨_, .done⟩
  | case2 s a work hknown ih =>
    obtain ⟨later, hlater⟩ := ih
    exact ⟨_, .goesOn (.ignored (LedgerView.decides_iff.2 hknown)) rfl hlater⟩
  | case3 s a work after hblocked ih =>
    obtain ⟨later, hlater⟩ := ih
    exact ⟨_, .goesOn (.blocked (LedgerView.decides_iff.2 hblocked)) rfl hlater⟩
  | case4 s a work cause hrefused =>
    exact ⟨_, .fails (.refused (LedgerView.decides_iff.2 hrefused)) rfl⟩
  | case5 s a work after unblocked happlied later ih =>
    have hdecides := LedgerView.decides_iff.2 happlied
    obtain ⟨o, ho⟩ := ih
    -- The stack holds what was unblocked and what came before it; the recursion takes them apart.
    obtain ⟨first, hfirst, hrest⟩ := ho.split
    rw [hdecides.unblocked_eq] at hfirst
    have hoffer := Reenters.applied hdecides hfirst
    cases hviolation : first.violation with
    | some cause => exact ⟨_, .fails hoffer hviolation⟩
    | none =>
      obtain ⟨later, hlater⟩ := hrest hviolation
      exact ⟨_, .goesOn hoffer hviolation hlater⟩

namespace LedgerView

/-- **The work loop is the recursion.** Whatever the view and the atom, an offer has one outcome,
and so has the loop that works through a stack: it is the one that the recursive rules give, with
the same view, the same atoms passed on in the same order, and the same violation, if there is
one. -/
theorem accept_iff_reenters (scope : Scope) (s : LedgerView) (a : Atom) (o : Outcome) :
    (s.accept scope a = o ↔ Reenters scope s a o) ∧
    ((∃ n, (WorkLoop.start s a).EndsAfter scope n o) ↔ Reenters scope s a o) := by
  have hrules : s.accept scope a = o ↔ Reenters scope s a o := by
    refine ⟨?_, Reenters.accept_eq⟩
    rintro rfl
    obtain ⟨p, hp⟩ := exists_reentersAll scope s [a]
    obtain ⟨first, hfirst⟩ : ∃ first, Reenters scope s a first := by
      cases hp with
      | fails h _ => exact ⟨_, h⟩
      | goesOn h _ _ => exact ⟨_, h⟩
    rw [hfirst.accept_eq]
    exact hfirst
  obtain ⟨n, -, hends⟩ := WorkLoop.endsAfter_run scope s [a] []
  refine ⟨hrules, ?_⟩
  rw [← hrules]
  constructor
  · rintro ⟨m, hm⟩
    exact (hends.unique hm).2
  · rintro rfl
    exact ⟨n, hends⟩

end LedgerView

end ParticleLedger
