import ParticleLedger.Reconciler.Basic

/-!
# The registry of reconcilers

One reconciler for each scope that someone asked for. An atom delivered for an address is offered to
every reconciler of that address; one that has halted does not keep it from the others.
-/

namespace ParticleLedger

open Std (ExtTreeMap TransOrd LawfulEqOrd TransCmp LawfulEqCmp)

instance : Ord Scope := ⟨compareLex (compareOn (·.address)) (compareOn (·.filter))⟩

instance : TransOrd Scope :=
  inferInstanceAs (TransCmp (compareLex (compareOn fun s : Scope => s.address)
    (compareOn fun s : Scope => s.filter)))

instance : LawfulEqOrd Scope where
  compare_self := Std.ReflCmp.compare_self
  eq_of_compare {a b} h := by
    obtain ⟨ha, hf⟩ : compare a.address b.address = .eq ∧ compare a.filter b.filter = .eq :=
      Ordering.then_eq_eq.1 h
    cases a
    cases b
    obtain rfl := LawfulEqCmp.eq_of_compare ha
    obtain rfl := LawfulEqCmp.eq_of_compare hf
    rfl

/-- The reconcilers of a client, and what they count together. -/
structure Registry where
  reconcilers : ExtTreeMap Scope Reconciler
  meter : Meter

namespace Registry

/-- No reconcilers yet. -/
def empty : Registry := ⟨∅, .zero⟩

/-- The reconciler of a scope, if there is one. -/
def get? (reg : Registry) (scope : Scope) : Option Reconciler :=
  reg.reconcilers[scope]?

/-- Makes the reconciler of a scope unless there is one. -/
def ensure (reg : Registry) (scope : Scope) : Registry :=
  { reg with reconcilers := reg.reconcilers.insertIfNew scope (.fresh scope) }

/-- Replaces the reconciler of a scope by what an operation makes of it. -/
def modify (reg : Registry) (scope : Scope) (f : Reconciler → Reconciler) : Registry :=
  { reg with reconcilers := reg.reconcilers.modify scope f }

/-- The reconcilers of an address. -/
def ofAddress (reg : Registry) (a : Address) : List Reconciler :=
  (reg.reconcilers.toList.map (·.2)).filter (·.scope.address = a)

/-- The first violation met when an atom is offered to the reconcilers of an address. -/
def violation? (reg : Registry) (a : Address) (atom : Atom) : Option Violation :=
  (reg.ofAddress a).findSome? fun r => (r.accept atom).error

/-- Offers an atom to every reconciler of an address. -/
def accept (reg : Registry) (a : Address) (atom : Atom) : Registry :=
  { reconcilers := reg.reconcilers.map fun _ r =>
      if r.scope.address = a then (r.accept atom).reconciler else r
    meter := (reg.ofAddress a).foldl (fun m r => m.count r (r.accept atom)) reg.meter }

/-- Offers an atom to the reconciler of one scope. -/
def acceptAt (reg : Registry) (scope : Scope) (atom : Atom) : Registry :=
  match reg.get? scope with
  | none => reg
  | some r =>
    let x := r.accept atom
    { (reg.modify scope fun _ => x.reconciler) with meter := reg.meter.count r x }

/-- The scope that follows every token of an address. -/
def everything (a : Address) : Scope := ⟨a, .any⟩

/-- Subscribes to the atoms validated for an address in every token, making the reconciler if there
is none yet. The number of the subscription is that of `Registry.nextSubscriber`. -/
def subscribe (reg : Registry) (a : Address) : Registry :=
  (reg.ensure (everything a)).modify (everything a) Reconciler.subscribe

/-- The number that the next subscription to an address gets. -/
def nextSubscriber (reg : Registry) (a : Address) : Nat :=
  ((reg.get? (everything a)).map (·.subscribers.opened)).getD 0

/-- What waits for a subscription to an address. -/
def inbox (reg : Registry) (a : Address) (subscriber : Nat) : List Atom :=
  ((reg.get? (everything a)).bind (·.subscribers.inbox? subscriber)).getD []

/-- The registry after a subscription has taken its first `n` atoms. -/
def take (reg : Registry) (a : Address) (subscriber n : Nat) : Registry :=
  reg.modify (everything a) fun r => { r with subscribers := r.subscribers.take subscriber n }

end Registry

end ParticleLedger
