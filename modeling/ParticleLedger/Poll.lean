/-!
# Asking without waiting

Readers of a stream ask for the next item and are told at once whether there is one, whether there
may be one later, or whether there never will be.
-/

namespace ParticleLedger

/-- The answer to a reader that does not wait. -/
inductive Poll (α : Type) where
  | ready (item : α)
  | pending
  | ended
  deriving DecidableEq

/-- The answer with its item replaced by what a function makes of it. -/
def Poll.map {α β : Type} (f : α → β) : Poll α → Poll β
  | .ready item => .ready (f item)
  | .pending => .pending
  | .ended => .ended

end ParticleLedger
