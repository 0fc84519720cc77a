import ParticleLedger.Snapshot.Fold
import ParticleLedger.Text.Duration

/-!
# The store of folds

One fold for each address that someone asked for, all with one reducer and one debounce window. A
fold is started when its address is asked for first and is kept from then on.
-/

namespace ParticleLedger

open Std (ExtTreeMap)

/-- The folds of a reducer. -/
structure ReducerStore (State : Type) where
  reducer : Reducer State
  /-- The debounce window in milliseconds. -/
  debounce : Nat
  folds : ExtTreeMap Address (StateFold State)

namespace ReducerStore

variable {State : Type}

/-- No folds yet. -/
def empty (r : Reducer State) (debounce : Nat) : ReducerStore State :=
  ⟨r, debounce, ∅⟩

/-- The fold of an address, if it has been started. -/
def get? (s : ReducerStore State) (a : Address) : Option (StateFold State) :=
  s.folds[a]?

/-- Starts the fold of an address over the source of that number, unless it has been started. -/
def ensure (s : ReducerStore State) (a : Address) (source : Nat) : ReducerStore State :=
  { s with folds := s.folds.insertIfNew a (.start s.reducer source) }

/-- Gives an atom to the fold of an address. -/
def receive (s : ReducerStore State) (now : Nat) (a : Address) (atom : Atom) : ReducerStore State :=
  { s with folds := s.folds.modify a (StateFold.receive s.reducer a s.debounce now · atom) }

/-- Closes the source of an address. -/
def close (s : ReducerStore State) (a : Address) : ReducerStore State :=
  { s with folds := s.folds.modify a StateFold.close }

/-- Lets time pass up to `now`. -/
def advance (s : ReducerStore State) (now : Nat) : ReducerStore State :=
  { s with folds := s.folds.map fun _ f => f.advance now }

/-- Whether the source of an address is open. -/
def running (s : ReducerStore State) (a : Address) : Bool :=
  (s.get? a).any (·.running)

/-- The number of folds. -/
def size (s : ReducerStore State) : Nat :=
  s.folds.size

/-- The number of snapshots published by all folds. -/
def publications (s : ReducerStore State) : Nat :=
  (s.folds.toList.map (·.2.publications)).foldr (· + ·) 0

/-- What the fold of an address shows. -/
def published (s : ReducerStore State) (a : Address) : Published State :=
  match s.get? a with
  | some f => f.published
  | none => .nothing

/-- The next deadline of a fold. -/
def nextDeadline (s : ReducerStore State) : Option Nat :=
  (s.folds.toList.filterMap (·.2.deadline)).min?

/-- The diagnostic text. -/
def describe (s : ReducerStore State) : String :=
  "ReducerStore \x7b reducer: " ++ Text.quoted s.reducer.name ++ ", debounce: "
    ++ Text.duration (.millis s.debounce) ++ ", addresses: " ++ toString s.size ++ " \x7d"

end ReducerStore

end ParticleLedger
