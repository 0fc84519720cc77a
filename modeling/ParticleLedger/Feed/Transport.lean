import ParticleLedger.Feed.Filter

/-!
# Connections and transports

A connection is a line into which a sender puts atoms, and at most one error that breaks it, and
from which a pump takes them in order. A transport opens connections for addresses.
`DeliveryFilter.step` lets the pump of an address do one thing over a transport, if there is
anything it can do now.
-/

namespace ParticleLedger

open Std (ExtTreeMap)

/-! ## Lines -/

/-- What a sender puts into a line. -/
abbrev LineItem := Except FeedError Atom

/-- One connection. -/
structure Line where
  queue : List LineItem
  /-- The sender is gone: nothing more will be put. -/
  ended : Bool

/-- Connections, by number. -/
structure Lines where
  lines : ExtTreeMap Nat Line
  /-- How many connections there have been. -/
  opened : Nat

namespace Lines

/-- No connections yet. -/
def empty : Lines := ⟨∅, 0⟩

/-- Opens a connection that holds some items; its number is `ls.opened`. -/
def connect (ls : Lines) (items : List LineItem) : Lines :=
  ⟨ls.lines.insert ls.opened ⟨items, false⟩, ls.opened + 1⟩

/-- Puts an item into a line. -/
def put (ls : Lines) (line : Nat) (item : LineItem) : Lines :=
  { ls with lines := ls.lines.modify line fun l => { l with queue := l.queue ++ [item] } }

/-- The sender of a line goes. -/
def hangUp (ls : Lines) (line : Nat) : Lines :=
  { ls with lines := ls.lines.modify line fun l => { l with ended := true } }

/-- Takes the next item of a line. -/
def take (ls : Lines) (line : Nat) : Lines × Poll LineItem :=
  match ls.lines[line]? with
  | none => (ls, .ended)
  -- What was put before the sender went is read first.
  | some ⟨[], ended⟩ => (ls, if ended then .ended else .pending)
  | some ⟨item :: rest, ended⟩ =>
    ({ ls with lines := ls.lines.insert line ⟨rest, ended⟩ }, .ready item)

/-- How many things can still happen on all lines if nobody puts anything. -/
def backlog (ls : Lines) : Nat :=
  (ls.lines.toList.map fun (_, l) => l.queue.length + 1).foldr (· + ·) 0

end Lines

/-! ## Transports -/

/-- A way to open connections and to read them. -/
class Transport (Net : Type) where
  /-- Opens a connection for an address, and says which number it has. -/
  connect : Address → Net → Net × Except FeedError Nat
  /-- Takes the next item of a connection. -/
  take : Nat → Net → Net × Poll LineItem

namespace DeliveryFilter

variable {Net : Type} [Transport Net]

/-- What the pump of an address meets next, if it can do anything at time `now`. -/
def nextEvent? (now : Nat) (phase : PumpPhase) (a : Address) (net : Net) :
    Option (Net × TransportEvent) :=
  match phase with
  | .connecting =>
    match Transport.connect a net with
    | (net, .ok line) => some (net, .connected line)
    | (net, .error cause) => some (net, .refused cause)
  | .streaming line =>
    match Transport.take line net with
    | (net, .ready (.ok atom)) => some (net, .arrived atom)
    | (net, .ready (.error cause)) => some (net, .failed cause)
    | (net, .ended) => some (net, .ended)
    | (_, .pending) => none
  | .waiting due => if due ≤ .millis now then some (net, .elapsed) else none
  | .stopped => none

/-- Lets the pump of an address do one thing, if there is anything it can do at time `now`. -/
def step (now : Nat) (a : Address) (f : DeliveryFilter) (net : Net) :
    Option (DeliveryFilter × Net) :=
  (nextEvent? now (f.phase a) a net).map fun (net, e) => (f.handle now a e, net)

/-- Lets the pump of an address do at most `fuel` things at time `now`. -/
def run (now : Nat) (a : Address) : (fuel : Nat) → DeliveryFilter → Net → DeliveryFilter × Net
  | 0, f, net => (f, net)
  | fuel + 1, f, net =>
    match f.step now a net with
    | none => (f, net)
    | some (f, net) => run now a fuel f net

/-- As many things as a pump can do while `backlog` things happen on its connections: before each it
may lose its connection as often as the policy allows, and each time it waits and connects again. -/
def fuelFor (policy : RetryPolicy) (backlog : Nat) : Nat :=
  (backlog + 1) * (3 * policy.maxAttempts.toNat + 6)

/-- Lets every pump do all that it can do at time `now`, while at most `backlog` things happen on
the connections of each. -/
def settle (now backlog : Nat) (f : DeliveryFilter) (net : Net) : DeliveryFilter × Net :=
  f.feeds.keys.foldl (fun (f, net) a => f.run now a (fuelFor f.policy backlog) net) (f, net)

end DeliveryFilter

end ParticleLedger
