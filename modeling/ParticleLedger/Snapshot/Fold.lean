import ParticleLedger.Reducer
import ParticleLedger.Snapshot.Published

/-!
# A debounced fold

The fold of one address takes in atoms as they come and publishes its state once the input has been
quiet for the debounce window. Each atom moves the deadline; when the source closes, a state that is
not yet published is published at once. Times are in milliseconds.
-/

namespace ParticleLedger

/-- The running fold of one address. -/
structure StateFold (State : Type) where
  /-- The number of the subscription that it reads. -/
  source : Nat
  state : State
  /-- When the state will be published, if it has not been since it changed. -/
  deadline : Option Nat
  published : Published State
  /-- The particles folded so far. -/
  folded : Nat

namespace StateFold

variable {State : Type}

/-- A fold that has seen nothing of its source. -/
def start (r : Reducer State) (source : Nat) : StateFold State :=
  ⟨source, r.initial, none, .nothing, 0⟩

/-- Whether the source is still open. -/
def running (f : StateFold State) : Bool :=
  !f.published.stopped

/-- How many snapshots have been published. -/
def publications (f : StateFold State) : Nat :=
  f.published.version

/-- Takes in an atom that arrives at time `now`. -/
def receive (r : Reducer State) (a : Address) (debounce now : Nat) (f : StateFold State)
    (atom : Atom) : StateFold State :=
  if f.running then
    { f with
      state := r.foldAtom a f.state atom
      deadline := some (now + debounce)
      folded := f.folded + atom.particles.length }
  else f

/-- Publishes the state. -/
def publish (f : StateFold State) : StateFold State :=
  { f with deadline := none, published := f.published.publish f.state }

/-- Lets time pass up to `now`: a deadline that has come by then is met. -/
def advance (now : Nat) (f : StateFold State) : StateFold State :=
  match f.deadline with
  | some due => if due ≤ now then f.publish else f
  | none => f

/-- The source closes: a state that waits for its deadline is published at once. -/
def close (f : StateFold State) : StateFold State :=
  if f.running then
    -- Without a deadline everything taken in has been published.
    let f := if f.deadline.isSome then f.publish else f
    { f with published := f.published.stop }
  else f

end StateFold

end ParticleLedger
