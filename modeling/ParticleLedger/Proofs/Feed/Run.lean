import ParticleLedger.Feed.Transport
import ParticleLedger.Proofs.Feed.Delivery

/-!
# Runs of a delivery filter

Subscribers come, ask and go, and pumps meet what their connections bring, in any order. A run is a
list of such operations (`Operation`); nothing is assumed of their order, of the times at which they
happen, or of what a connection brings, so whatever a transport does makes some run
(`exists_operations_run`). What a run shows on the way is collected beside it: the atoms that pumps
heard, what the feeds said to their subscribers, and what each subscription gave away.

Main statements: `Linked.afterAll` (subscriptions are numbered in the order in which they come, and
each shares the feed of its own address only, once), `heard_of_nextEvent?` and
`exists_operations_run`.
-/

namespace ParticleLedger

open Std (ExtTreeMap)

/-- The atom that a connection brings. -/
def TransportEvent.arrived? : TransportEvent → Option Atom
  | .arrived x => some x
  | _ => none

namespace Feed

variable {feed : Feed} {id j : Nat}

@[simp] theorem seen_pump_leave : (feed.leave id).pump.seen = feed.pump.seen := by
  unfold leave
  simp only
  split <;> rfl

/-- While another subscription shares the feed its pump goes on. -/
theorem pump_leave (hj : j ∈ feed.members) (hid : id ≠ j) : (feed.leave id).pump = feed.pump := by
  have hstays : feed.members.filter (· ≠ id) ≠ [] :=
    List.ne_nil_of_mem (List.mem_filter.2 ⟨hj, by simp [hid.symm]⟩)
  unfold leave
  simp only [List.isEmpty_iff, if_neg hstays]

theorem mem_members_leave (hj : j ∈ feed.members) (hid : id ≠ j) : j ∈ (feed.leave id).members :=
  List.mem_filter.2 ⟨hj, by simp [hid.symm]⟩

end Feed

namespace DeliveryFilter

/-! ## Operations -/

/-- What a user of the filter, or the pump of an address, does. -/
inductive Operation where
  | subscribe (a : Address)
  | unsubscribe (id : Nat)
  | next (id : Nat)
  | meets (now : Nat) (a : Address) (e : TransportEvent)

/-- The address whose pump does something. -/
def Operation.pumped? : Operation → Option Address
  | .meets _ a _ => some a
  | _ => none

/-- The filter after an operation. -/
def after (f : DeliveryFilter) : Operation → DeliveryFilter
  | .subscribe a => f.subscribe a
  | .unsubscribe id => f.unsubscribe id
  | .next id => (f.next id).1
  | .meets now a e => f.handle now a e

@[simp] theorem after_subscribe (f : DeliveryFilter) (a : Address) :
    f.after (.subscribe a) = f.subscribe a := rfl

@[simp] theorem after_unsubscribe (f : DeliveryFilter) (id : Nat) :
    f.after (.unsubscribe id) = f.unsubscribe id := rfl

@[simp] theorem after_next (f : DeliveryFilter) (id : Nat) :
    f.after (.next id) = (f.next id).1 := rfl

@[simp] theorem after_meets (f : DeliveryFilter) (now : Nat) (a : Address) (e : TransportEvent) :
    f.after (.meets now a e) = f.handle now a e := rfl

/-- The filter after some operations, one after another. -/
def afterAll (f : DeliveryFilter) (ops : List Operation) : DeliveryFilter :=
  ops.foldl after f

@[simp] theorem afterAll_nil (f : DeliveryFilter) : f.afterAll [] = f := rfl

@[simp] theorem afterAll_cons (f : DeliveryFilter) (op : Operation) (ops : List Operation) :
    f.afterAll (op :: ops) = (f.after op).afterAll ops := rfl

theorem afterAll_concat (f : DeliveryFilter) (ops : List Operation) (op : Operation) :
    f.afterAll (ops ++ [op]) = (f.afterAll ops).after op := by
  simp [afterAll]

/-- All that some operations show on the way of what `out` looks at. -/
def collect {β : Type} (out : DeliveryFilter → Operation → List β) (f : DeliveryFilter) :
    List Operation → List β
  | [] => []
  | op :: rest => out f op ++ (f.after op).collect out rest

section Collect

variable {β : Type} {out : DeliveryFilter → Operation → List β} {f : DeliveryFilter}

@[simp] theorem collect_nil : f.collect out [] = [] := rfl

@[simp] theorem collect_cons {op : Operation} {ops : List Operation} :
    f.collect out (op :: ops) = out f op ++ (f.after op).collect out ops := rfl

theorem collect_append {first later : List Operation} :
    f.collect out (first ++ later) = f.collect out first ++ (f.afterAll first).collect out later := by
  induction first generalizing f with
  | nil => simp
  | cons op rest ih => simp [ih]

end Collect

variable {f g : DeliveryFilter} {a b : Address} {id j now : Nat} {op : Operation}
  {e : TransportEvent}

@[simp] theorem validator_after : (f.after op).validator = f.validator := by
  cases op <;> simp

@[simp] theorem validator_afterAll (ops : List Operation) :
    (f.afterAll ops).validator = f.validator := by
  induction ops generalizing f with
  | nil => rfl
  | cons op rest ih => simp [ih]

/-! ## What an operation shows -/

/-- The atom that reaches a pump. -/
def heard (f : DeliveryFilter) : Operation → List Atom
  | .meets _ a e => (f.feeds[a]?.bind (·.pump.heard? e)).toList
  | _ => []

/-- What a feed says to its subscribers. -/
def said (f : DeliveryFilter) : Operation → List FeedEvent
  | .meets now a e =>
    (f.feeds[a]?.bind fun feed => (feed.pump.handle f.policy f.validator now e).told).toList
  | _ => []

/-- The part of what operations show that the pump of an address does. -/
def ofPump {β : Type} (a : Address) (out : DeliveryFilter → Operation → List β)
    (f : DeliveryFilter) (op : Operation) : List β :=
  if op.pumped? = some a then out f op else []

section OfPump

variable {β : Type} {out : DeliveryFilter → Operation → List β}

@[simp] theorem ofPump_subscribe : f.ofPump a out (.subscribe b) = [] := rfl

@[simp] theorem ofPump_unsubscribe : f.ofPump a out (.unsubscribe id) = [] := rfl

@[simp] theorem ofPump_next : f.ofPump a out (.next id) = [] := rfl

@[simp] theorem ofPump_meets :
    f.ofPump a out (.meets now b e) = if b = a then out f (.meets now b e) else [] := by
  simp [ofPump, Operation.pumped?]

end OfPump

/-- What a subscription gives away. -/
def yielded (j : Nat) (f : DeliveryFilter) : Operation → List Atom
  | .next id =>
    if id = j then
      match (f.next j).2 with
      | .ready (.ok x) => [x]
      | _ => []
    else []
  | _ => []

/-- Whether an operation opens a feed for the address: a subscription that finds none to join. -/
def opens (a : Address) (f : DeliveryFilter) : Operation → Bool
  | .subscribe b => b = a && !f.feeds[a]?.any Feed.joinable
  | _ => false

/-- What the present feed of an address has heard after some operations, if it had heard the atoms
in `past` before them. A feed that has just been opened has heard nothing. -/
def history (a : Address) (f : DeliveryFilter) (past : List Atom) : List Operation → List Atom
  | [] => past
  | op :: rest =>
    (f.after op).history a (if f.opens a op then [] else past ++ f.ofPump a heard op) rest

/-! ## Runs over a transport -/

section Transports

variable {Net : Type} [Transport Net] {net net' : Net}

/-- Over a transport, the pump of an address hears all atoms that it takes from its connections. -/
theorem heard_of_nextEvent? (h : nextEvent? now (f.phase a) a net = some (net', e)) :
    f.heard (.meets now a e) = e.arrived?.toList := by
  unfold phase at h
  cases hfeed : f.feeds[a]? with
  | none => simp [hfeed, nextEvent?] at h
  | some feed =>
    have hheard : f.heard (.meets now a e) = (feed.pump.heard? e).toList := by simp [heard, hfeed]
    rw [hheard]
    obtain ⟨⟨phase, failures, seen⟩, members⟩ := feed
    simp only [hfeed, Option.map_some, Option.getD_some] at h
    cases phase with
    | streaming line => cases e <;> rfl
    | connecting =>
      simp only [nextEvent?] at h
      split at h <;> (cases h; rfl)
    | waiting due =>
      simp only [nextEvent?, Option.ite_none_right_eq_some] at h
      obtain ⟨-, h⟩ := h
      cases h
      rfl
    | stopped => contradiction

/-- Whatever a transport does, its pump performs operations. -/
theorem exists_operations_run (f : DeliveryFilter) (a : Address) (fuel : Nat) (net : Net) :
    ∃ ops : List Operation, (∀ op ∈ ops, op.pumped? = some a) ∧
      (f.run now a fuel net).1 = f.afterAll ops := by
  induction fuel generalizing f net with
  | zero => exact ⟨[], by simp, rfl⟩
  | succ fuel ih =>
    unfold run step
    cases nextEvent? now (f.phase a) a net with
    | none => exact ⟨[], by simp, rfl⟩
    | some met =>
      obtain ⟨net', e⟩ := met
      obtain ⟨ops, hops, hrun⟩ := ih (f.handle now a e) net'
      exact ⟨.meets now a e :: ops, by simpa [Operation.pumped?] using hops, hrun⟩

end Transports

/-! ## Who shares which feed -/

/-- The address of a subscription. -/
def address? (f : DeliveryFilter) (j : Nat) : Option Address :=
  f.subscriptions[j]?.map (·.address)

theorem address?_subscribe :
    (f.subscribe a).address? j = if j = f.opened then some a else f.address? j := by
  unfold address?
  rw [getElem?_subscriptions_subscribe]
  split <;> rfl

theorem address?_unsubscribe :
    (f.unsubscribe id).address? j = if j = id then none else f.address? j := by
  unfold address?
  rw [getElem?_subscriptions_unsubscribe]
  split <;> rfl

@[simp] theorem address?_next : (f.next id).1.address? j = f.address? j := by
  unfold address?
  rw [getElem?_subscriptions_next]
  split
  · simp [Function.comp_def]
  · rfl

@[simp] theorem address?_handle : (f.handle now a e).address? j = f.address? j := by
  unfold address?
  rw [getElem?_subscriptions_handle]
  cases f.feeds[a]? with
  | none => rfl
  | some feed =>
    cases htold : (feed.pump.handle f.policy f.validator now e).told with
    | none => simp [htold]
    | some event => simp [htold, Function.comp_def]

/-- Subscriptions are numbered in the order in which they come; each shares the feed of its own
address only, and only once. -/
structure Linked (f : DeliveryFilter) : Prop where
  numbered : ∀ j a, f.address? j = some a → j < f.opened
  address_of_member : ∀ a j, f.Member a j → f.address? j = some a
  nodup : ∀ (a : Address) (feed : Feed), f.feeds[a]? = some feed → feed.members.Nodup

namespace Linked

theorem empty (policy : RetryPolicy) (validator : AtomValidator) :
    (DeliveryFilter.empty policy validator).Linked where
  numbered := by simp [address?, DeliveryFilter.empty]
  address_of_member := by simp [Member, DeliveryFilter.empty]
  nodup := by simp [DeliveryFilter.empty]

theorem lt_of_member (h : f.Linked) (hj : f.Member a j) : j < f.opened :=
  h.numbered j a (h.address_of_member a j hj)

/-- A subscription is no member of the feed of another address. -/
theorem count_eq_zero (h : f.Linked) {feed : Feed} (hfeed : f.feeds[b]? = some feed)
    (hj : f.address? j = some a) (hb : b ≠ a) : feed.members.count j = 0 := by
  rw [List.count_eq_zero]
  intro hmem
  have hother : f.address? j = some b := h.address_of_member b j ⟨feed, hfeed, hmem⟩
  exact hb (Option.some_inj.1 (hother.symm.trans hj))

theorem subscribe (h : f.Linked) : (f.subscribe a).Linked where
  numbered j b hj := by
    rw [address?_subscribe] at hj
    rw [opened_subscribe]
    split at hj
    · omega
    · have hlt := h.numbered j b hj
      omega
  address_of_member b j hj := by
    rw [address?_subscribe]
    rcases member_subscribe hj with hold | ⟨rfl, rfl⟩
    · have hlt := h.lt_of_member hold
      rw [if_neg (by omega)]
      exact h.address_of_member b j hold
    · rw [if_pos rfl]
  nodup b feed hfeed := by
    rw [getElem?_feeds_subscribe] at hfeed
    split at hfeed
    · next hb =>
      subst hb
      obtain rfl := Option.some_inj.1 hfeed
      unfold feedToJoin
      cases hold : f.feeds[b]? with
      | none => simp [Feed.opened]
      | some old =>
        simp only
        split
        · have hnew : f.opened ∉ old.members :=
            fun hmem => Nat.lt_irrefl _ (h.lt_of_member ⟨old, hold, hmem⟩)
          refine List.nodup_append.2 ⟨h.nodup b old hold, by simp, ?_⟩
          intro m hm n hn
          obtain rfl := List.mem_singleton.1 hn
          exact fun heq => hnew (heq ▸ hm)
        · simp [Feed.opened]
    · exact h.nodup b feed (Option.filter_eq_some_iff.1 hfeed).1

theorem unsubscribe (h : f.Linked) : (f.unsubscribe id).Linked where
  numbered j b hj := by
    rw [address?_unsubscribe] at hj
    rw [opened_unsubscribe]
    split at hj
    · contradiction
    · exact h.numbered j b hj
  address_of_member b j hj := by
    have hold : f.address? j = some b := h.address_of_member b j (member_unsubscribe hj)
    rw [address?_unsubscribe]
    split
    · next hid =>
      -- The subscription that goes has left the feed of its address.
      subst hid
      exfalso
      obtain ⟨feed, hfeed, hmem⟩ := hj
      rw [getElem?_feeds_unsubscribe] at hfeed
      obtain ⟨old, -, rfl⟩ := Option.map_eq_some_iff.1 hfeed
      have hown : f.subscriptions[j]?.any (·.address = b) = true := by
        obtain ⟨s, hs, haddress⟩ := Option.map_eq_some_iff.1 hold
        simp [hs, haddress]
      rw [if_pos hown] at hmem
      simp [Feed.leave] at hmem
    · exact hold
  nodup b feed hfeed := by
    rw [getElem?_feeds_unsubscribe] at hfeed
    obtain ⟨old, hold, rfl⟩ := Option.map_eq_some_iff.1 hfeed
    split
    · exact (h.nodup b old hold).filter _
    · exact h.nodup b old hold

theorem next (h : f.Linked) : (f.next id).1.Linked where
  numbered j b hj := by
    rw [address?_next] at hj
    rw [opened_next]
    exact h.numbered j b hj
  address_of_member b j hj := by
    rw [address?_next]
    exact h.address_of_member b j (member_next hj)
  nodup b feed hfeed := by
    rw [feeds_next] at hfeed
    exact h.nodup b feed hfeed

theorem handle (h : f.Linked) : (f.handle now a e).Linked where
  numbered j b hj := by
    rw [address?_handle] at hj
    rw [opened_handle]
    exact h.numbered j b hj
  address_of_member b j hj := by
    rw [address?_handle]
    exact h.address_of_member b j (member_handle hj)
  nodup b feed hfeed := by
    rw [getElem?_feeds_handle] at hfeed
    obtain ⟨old, hold, rfl⟩ := Option.map_eq_some_iff.1 hfeed
    split
    · exact h.nodup b old hold
    · exact h.nodup b old hold

theorem after (h : f.Linked) : (f.after op).Linked := by
  cases op with
  | subscribe a => exact h.subscribe
  | unsubscribe id => exact h.unsubscribe
  | next id => exact h.next
  | meets now a e => exact h.handle

theorem afterAll (h : f.Linked) (ops : List Operation) : (f.afterAll ops).Linked := by
  induction ops generalizing f with
  | nil => exact h
  | cons op rest ih => exact ih h.after

end Linked

end DeliveryFilter

end ParticleLedger
