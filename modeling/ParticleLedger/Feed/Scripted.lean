import ParticleLedger.Feed.Transport

/-!
# A transport laid out in advance

For each address a queue says what the next attempts to connect meet: a connection, or a refusal.
When the queue is used up every attempt is refused. What arrives on a connection is put there by
hand, before or after it is taken.
-/

namespace ParticleLedger

open Std (ExtTreeMap)

/-- A transport whose connections are laid out. -/
structure ScriptedTransport where
  lines : Lines
  /-- What the next attempts of each address meet. -/
  offers : ExtTreeMap Address (List (Except FeedError Nat))
  /-- How often each address tried to connect. -/
  calls : ExtTreeMap Address Nat

namespace ScriptedTransport

/-- Nothing laid out. -/
def empty : ScriptedTransport := ⟨.empty, ∅, ∅⟩

/-- Lays out what a later attempt of an address meets. -/
def lay (t : ScriptedTransport) (a : Address) (offer : Except FeedError Nat) : ScriptedTransport :=
  { t with offers := t.offers.insert a (t.offers.getD a [] ++ [offer]) }

/-- Lays out a connection; its number is `t.lines.opened`. -/
def layLine (t : ScriptedTransport) (a : Address) : ScriptedTransport :=
  { t.lay a (.ok t.lines.opened) with lines := t.lines.connect [] }

/-- Lays out a refusal. -/
def layRefusal (t : ScriptedTransport) (a : Address) (cause : FeedError) : ScriptedTransport :=
  t.lay a (.error cause)

/-- Whether the connection of that number has not been taken yet. -/
def offered (t : ScriptedTransport) (line : Nat) : Bool :=
  t.offers.toList.any fun (_, offers) => offers.any fun
    | .ok n => n = line
    | .error _ => false

/-- How often an address tried to connect. -/
def callsOf (t : ScriptedTransport) (a : Address) : Nat :=
  t.calls.getD a 0

/-- An attempt to connect. -/
def connect (a : Address) (t : ScriptedTransport) : ScriptedTransport × Except FeedError Nat :=
  let t := { t with calls := t.calls.insert a (t.callsOf a + 1) }
  match t.offers.getD a [] with
  | [] => (t, .error (.transport "connection refused"))
  | offer :: rest => ({ t with offers := t.offers.insert a rest }, offer)

instance : Transport ScriptedTransport where
  connect := connect
  take line t :=
    let (lines, item) := t.lines.take line
    ({ t with lines }, item)

end ScriptedTransport

/-! ## A filter over such a transport, as time goes by -/

/-- A filter over a transport laid out in advance, at some time. -/
structure FeedSession where
  filter : DeliveryFilter
  transport : ScriptedTransport
  now : Nat

namespace FeedSession

/-- Lets all that can happen now happen. -/
def settle (s : FeedSession) : FeedSession :=
  let settled := s.filter.settle s.now s.transport.lines.backlog s.transport
  ⟨settled.1, settled.2, s.now⟩

/-- Lets time pass up to `target`, stopping at every time for which a pump waits. -/
def advance (target : Nat) (s : FeedSession) : FeedSession :=
  match s.filter.nextDue with
  | none => { s with now := target }
  | some due =>
    -- After settling no pump waits for a time that has come, so each stop is later than the last.
    if _h : s.now < due ∧ due ≤ target then advance target (settle { s with now := due })
    else { s with now := target }
  termination_by target - s.now
  decreasing_by simp only [settle]; omega

/-- Whether a connection has a reader, or may still get one. -/
def alive (s : FeedSession) (line : Nat) : Bool :=
  s.transport.offered line || s.filter.reading line

end FeedSession

end ParticleLedger
