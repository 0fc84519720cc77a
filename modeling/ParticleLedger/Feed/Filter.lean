import ParticleLedger.Feed.Pump
import ParticleLedger.Poll

/-!
# Delivery of atoms to subscriptions

All subscriptions to an address share one feed, so there is one connection however many of them
there are. A subscription that finds a running feed joins it and receives what is delivered from
then on; otherwise a new feed is opened for it, which remembers nothing of an earlier one. A feed
runs until its last subscription goes or it gives up; in the second case every subscription is told
so, once, after all its atoms.

Main statements: `Subscription.next_of_finished` and `Subscription.finished_next`.
-/

namespace ParticleLedger

open Std (ExtTreeMap)

/-! ## Subscriptions -/

/-- What waits for one subscriber. -/
structure Subscription where
  address : Address
  inbox : List FeedEvent
  /-- The feed gave up, and the subscriber knows. -/
  finished : Bool
  deriving DecidableEq

namespace Subscription

/-- A subscription to which nothing has been delivered. -/
def fresh (a : Address) : Subscription := ⟨a, [], false⟩

/-- Puts an event behind those that wait. -/
def receive (s : Subscription) (e : FeedEvent) : Subscription :=
  { s with inbox := s.inbox ++ [e] }

/-- Asks for the next atom. That the feed gave up is said once; then the subscription has ended. -/
def next (s : Subscription) : Subscription × Poll (Except FeedError Atom) :=
  if s.finished then (s, .ended)
  else match s.inbox with
    | [] => (s, .pending)
    | .atom a :: rest => ({ s with inbox := rest }, .ready (.ok a))
    | .exhausted attempts last :: rest =>
      ({ s with inbox := rest, finished := true },
        .ready (.error (.retriesExhausted attempts last)))

/-- A subscription that has ended stays so. -/
theorem next_of_finished {s : Subscription} (h : s.finished = true) : s.next = (s, .ended) := by
  simp [next, h]

/-- Asking leaves the subscription unfinished only if it is told of no failure. -/
theorem finished_next {s : Subscription} {e : FeedError} (h : s.next.2 = .ready (.error e)) :
    s.next.1.finished = true := by
  unfold next at h ⊢
  split at h
  · cases h
  · split at h <;> simp_all

end Subscription

/-! ## Feeds -/

/-- The feed of one address. -/
structure Feed where
  pump : Pump
  /-- The numbers of the subscriptions that share it. -/
  members : List Nat

namespace Feed

/-- A feed opened for a first subscription. -/
def opened (first : Nat) : Feed := ⟨.start, [first]⟩

/-- Whether a new subscription joins the feed. -/
def joinable (feed : Feed) : Bool :=
  !feed.members.isEmpty && feed.pump.running

/-- A subscription leaves; when it was the last, the pump stops. -/
def leave (feed : Feed) (id : Nat) : Feed :=
  let members := feed.members.filter (· ≠ id)
  ⟨if members.isEmpty then feed.pump.stop else feed.pump, members⟩

end Feed

/-! ## The filter -/

/-- How many atoms arrived, and how many of them were dropped, for each cause. -/
structure DeliveryCounts where
  received : Nat
  duplicate : Nat
  rejected : Nat
  deriving DecidableEq

/-- Counts an atom that arrived. -/
def DeliveryCounts.count (n : DeliveryCounts) : Verdict → DeliveryCounts
  | .delivered => { n with received := n.received + 1 }
  | .duplicate => { n with received := n.received + 1, duplicate := n.duplicate + 1 }
  | .rejected => { n with received := n.received + 1, rejected := n.rejected + 1 }

/-- Feeds and their subscriptions. -/
structure DeliveryFilter where
  policy : RetryPolicy
  validator : AtomValidator
  /-- The feed opened last for each address; feeds without subscriptions are forgotten when the next
  subscription is made. -/
  feeds : ExtTreeMap Address Feed
  subscriptions : ExtTreeMap Nat Subscription
  /-- How many subscriptions there have been. -/
  opened : Nat
  counts : DeliveryCounts

namespace DeliveryFilter

/-- No subscriptions yet. -/
def empty (policy : RetryPolicy) (validator : AtomValidator) : DeliveryFilter :=
  ⟨policy, validator, ∅, ∅, 0, ⟨0, 0, 0⟩⟩

/-- The feed that a new subscription to an address gets: the running one, which it joins, or a new
one. -/
def feedToJoin (f : DeliveryFilter) (a : Address) : Feed :=
  match f.feeds[a]? with
  | some feed =>
    if feed.joinable then { feed with members := feed.members ++ [f.opened] } else .opened f.opened
  | none => .opened f.opened

/-- Subscribes to an address; the number of the subscription is `f.opened`. -/
def subscribe (f : DeliveryFilter) (a : Address) : DeliveryFilter :=
  { f with
    -- This is when feeds that have lost their last subscription are forgotten.
    feeds := (f.feeds.insert a (f.feedToJoin a)).filter fun _ feed => !feed.members.isEmpty
    subscriptions := f.subscriptions.insert f.opened (.fresh a)
    opened := f.opened + 1 }

/-- Drops a subscription. -/
def unsubscribe (f : DeliveryFilter) (id : Nat) : DeliveryFilter :=
  match f.subscriptions[id]? with
  | none => f
  | some s =>
    { f with
      -- A newer feed of the address does not know the subscription and stays as it is.
      feeds := f.feeds.modify s.address (·.leave id)
      subscriptions := f.subscriptions.erase id }

/-- How many subscriptions share the feed of an address. -/
def subscriberCount (f : DeliveryFilter) (a : Address) : Nat :=
  (f.feeds[a]?.map (·.members.length)).getD 0

/-- Asks a subscription for its next atom. -/
def next (f : DeliveryFilter) (id : Nat) : DeliveryFilter × Poll (Except FeedError Atom) :=
  match f.subscriptions[id]? with
  | none => (f, .ended)
  | some s => ({ f with subscriptions := f.subscriptions.insert id s.next.1 }, s.next.2)

/-- Puts an event into the inboxes of some subscriptions. -/
def tell (f : DeliveryFilter) (members : List Nat) (e : FeedEvent) : DeliveryFilter :=
  { f with
    subscriptions := members.foldl (fun subs id => subs.modify id (·.receive e)) f.subscriptions }

/-- What happens when the pump of an address meets an event at time `now`. -/
def handle (f : DeliveryFilter) (now : Nat) (a : Address) (e : TransportEvent) : DeliveryFilter :=
  match f.feeds[a]? with
  | none => f
  | some feed =>
    let h := feed.pump.handle f.policy f.validator now e
    let f :=
      { f with
        feeds := f.feeds.insert a { feed with pump := h.pump }
        counts := h.verdict.elim f.counts f.counts.count }
    h.told.elim f (f.tell feed.members)

/-- Where the pump of an address is. -/
def phase (f : DeliveryFilter) (a : Address) : PumpPhase :=
  (f.feeds[a]?.map (·.pump.phase)).getD .stopped

/-- Whether some pump reads the connection of that number. -/
def reading (f : DeliveryFilter) (line : Nat) : Bool :=
  f.feeds.toList.any (·.2.pump.phase = .streaming line)

/-- The earliest tick of the clock with which the wait of a pump is over. -/
def nextDue (f : DeliveryFilter) : Option Nat :=
  (f.feeds.toList.filterMap fun (_, feed) =>
    match feed.pump.phase with
    | .waiting due => some due.tick
    | _ => none).min?

/-- The diagnostic text. -/
def describe (f : DeliveryFilter) : String :=
  "AtomDeliveryFilter \x7b policy: " ++ f.policy.describe ++ ", feeds: " ++ toString f.feeds.size
    ++ ", .. \x7d"

end DeliveryFilter

end ParticleLedger
