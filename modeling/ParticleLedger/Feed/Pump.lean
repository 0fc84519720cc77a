import ParticleLedger.Feed.Error
import ParticleLedger.Feed.Retry
import ParticleLedger.Feed.Validation

/-!
# The pump of a feed

A feed has one connection at a time. Its pump opens the connection, takes what arrives on it, and
opens the next one when it is lost: after a wait, and until the failures in a row reach the limit of
the retry policy. Any atom that arrives ends the row of failures.

An atom is delivered if it is the first with its name that passed validation. The names delivered
are kept over all connections of the feed, so an atom that comes again on a later connection is
dropped; an atom that failed validation is not kept, so a better signed copy of it may still be
delivered.

The pump is a machine: `Pump.handle` says what it does when something happens to it. The clock
counts milliseconds.
-/

namespace ParticleLedger

open Std (ExtTreeSet)

/-- What a feed tells its subscribers. -/
inductive FeedEvent where
  | atom (atom : Atom)
  /-- The feed gave up after this many failures in a row; the text is that of the last. -/
  | exhausted (attempts : UInt32) (last : String)
  deriving DecidableEq

/-- Where a pump is. -/
inductive PumpPhase where
  /-- About to open a connection. -/
  | connecting
  /-- Reading the connection of that number. -/
  | streaming (line : Nat)
  /-- Waiting to connect again at that time, counted from when the clock started. -/
  | waiting (due : Duration)
  | stopped
  deriving DecidableEq

/-- What can happen to a pump. -/
inductive TransportEvent where
  /-- The connection that was asked for is there. -/
  | connected (line : Nat)
  | refused (cause : FeedError)
  | arrived (atom : Atom)
  /-- The connection broke with an error. -/
  | failed (cause : FeedError)
  | ended
  /-- The wait is over. -/
  | elapsed

/-- What becomes of an atom that arrives. -/
inductive Verdict where
  | delivered
  | duplicate
  | rejected
  deriving DecidableEq

/-- The pump of one feed. -/
structure Pump where
  phase : PumpPhase
  /-- The failures in a row. -/
  failures : UInt32
  /-- The names of the atoms delivered. -/
  seen : ExtTreeSet AtomId

/-- What a pump does when something happens. -/
structure Handled where
  pump : Pump
  /-- What the subscribers are told. -/
  told : Option FeedEvent
  /-- What became of the atom, if one arrived. -/
  verdict : Option Verdict

namespace Pump

/-- A pump that is about to open its first connection. -/
def start : Pump := ⟨.connecting, 0, ∅⟩

/-- A pump that does nothing any more. -/
def stop (p : Pump) : Pump :=
  { p with phase := .stopped }

/-- Whether the pump still does something. -/
def running (p : Pump) : Bool :=
  p.phase ≠ .stopped

/-- What becomes of an atom that arrives. -/
def verdict (validator : AtomValidator) (p : Pump) (a : Atom) : Verdict :=
  if p.seen.contains a.id then .duplicate
  else match validator a with
    | .ok _ => .delivered
    | .error _ => .rejected

/-- The pump takes an atom. -/
def take (validator : AtomValidator) (p : Pump) (a : Atom) : Handled :=
  -- Any atom shows that the connection works, even one that is dropped.
  let p := { p with failures := 0 }
  match p.verdict validator a with
  | .delivered => ⟨{ p with seen := p.seen.insert a.id }, some (.atom a), some .delivered⟩
  | v => ⟨p, none, some v⟩

/-- The pump has lost its connection, or could not get one. -/
def disconnect (policy : RetryPolicy) (now : Nat) (p : Pump) (last : String) : Handled :=
  let failures := p.failures + 1
  if policy.shouldRetry failures then
    let due := .millis now + policy.delay failures
    ⟨{ p with phase := .waiting due, failures }, none, none⟩
  else ⟨{ p with phase := .stopped, failures }, some (.exhausted failures last), none⟩

/-- What the pump does when something happens to it at time `now`. Events that cannot happen where
the pump is change nothing. -/
def handle (policy : RetryPolicy) (validator : AtomValidator) (now : Nat) (p : Pump)
    (e : TransportEvent) : Handled :=
  match p.phase, e with
  | .connecting, .connected line => ⟨{ p with phase := .streaming line }, none, none⟩
  | .connecting, .refused cause => p.disconnect policy now cause.message
  | .streaming _, .arrived a => p.take validator a
  | .streaming _, .failed cause => p.disconnect policy now cause.message
  | .streaming _, .ended => p.disconnect policy now "stream ended"
  | .waiting due, .elapsed =>
    if due ≤ .millis now then ⟨{ p with phase := .connecting }, none, none⟩ else ⟨p, none, none⟩
  | _, _ => ⟨p, none, none⟩

end Pump

end ParticleLedger
