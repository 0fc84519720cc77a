import ParticleLedger.Broadcast
import ParticleLedger.Reconciler.View

/-!
# Reconcilers

A reconciler accepts the atoms of a feed and passes them on to its subscribers in causal order. At
the first violation it halts: what was applied before stays and has been passed on, and from then on
every atom is refused.
-/

namespace ParticleLedger

/-- The reconciler of one scope. -/
structure Reconciler where
  scope : Scope
  view : LedgerView
  /-- The violation at which it halted. -/
  halted : Option Violation
  subscribers : Broadcast Atom

/-- What came of offering an atom to a reconciler. -/
structure Accepted where
  reconciler : Reconciler
  /-- The atoms passed on, in order. -/
  emitted : List Atom
  error : Option Violation

namespace Accepted

/-- The atoms passed on, or the violation. -/
def result (x : Accepted) : Except LedgerError (List Atom) :=
  match x.error with
  | none => .ok x.emitted
  | some cause => .error (.consistencyViolation cause)

end Accepted

namespace Reconciler

/-- A reconciler that has seen nothing. -/
def fresh (scope : Scope) : Reconciler :=
  ⟨scope, .empty, none, .empty⟩

/-- Offers an atom. -/
def accept (r : Reconciler) (a : Atom) : Accepted :=
  match r.halted with
  | some reason => ⟨r, [], some (.halted r.scope.address reason)⟩
  | none =>
    let outcome := r.view.accept r.scope a
    { reconciler :=
        { r with
          view := outcome.view
          halted := outcome.violation
          -- What was applied before a violation is passed on all the same.
          subscribers := r.subscribers.post outcome.emitted }
      emitted := outcome.emitted
      error := outcome.violation }

/-- Offers atoms one after another. -/
def acceptAll (r : Reconciler) (atoms : List Atom) : Reconciler :=
  atoms.foldl (fun r a => (r.accept a).reconciler) r

/-- Adds a subscriber, whose number is `r.subscribers.opened`. It receives what is passed on from
now on. -/
def subscribe (r : Reconciler) : Reconciler :=
  { r with subscribers := r.subscribers.subscribe }

/-- Removes a subscriber. -/
def unsubscribe (r : Reconciler) (id : Nat) : Reconciler :=
  { r with subscribers := r.subscribers.unsubscribe id }

/-- The unspent coins, ordered by name. -/
def snapshot (r : Reconciler) : List Coin :=
  r.view.unconsumed.toList.map (·.2)

/-- The unspent coins of a token, ordered by name. -/
def snapshotFor (r : Reconciler) (t : TokenRef) : List Coin :=
  r.snapshot.filter (·.token = t)

/-- The number of atoms that wait. -/
def pendingLen (r : Reconciler) : Nat :=
  r.view.pending.size

end Reconciler

/-! ## Counting -/

/-- What reconcilers count: the atoms passed on, and the gauge of those that wait. -/
structure Meter where
  emitted : Nat
  pending : Int
  deriving DecidableEq

namespace Meter

/-- Nothing counted yet. -/
def zero : Meter := ⟨0, 0⟩

/-- Counts what came of offering an atom: the gauge moves by the change in the number that waits. -/
def count (m : Meter) (before : Reconciler) (x : Accepted) : Meter :=
  { emitted := m.emitted + x.emitted.length
    pending := m.pending + ((x.reconciler.view.pending.size : Int) - before.view.pending.size) }

end Meter

end ParticleLedger
