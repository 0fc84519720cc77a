import ParticleLedger.Proofs.Feed.Delivery

/-!
# The feeds that there have been

A feed belongs to the subscriptions that hold it. The table of the feeds only remembers, for each
address, which feed was opened last; that memory keeps no feed alive, and it may name one that has
given up, or one that nobody holds any more. So there may be many feeds of one address at a time: a
feed that gave up lives on while old subscriptions hold it, beside the feed that replaced it. A pump
sends to the subscriptions that were attached to its feed, and learns that one is gone only when it
sends.

`FeedTable` keeps every feed that was ever opened, numbered in that order, with its pump, so that
nothing is lost from sight when the table forgets it. For each operation the lemmas here say what it
does to what can be asked of the table: who holds a feed, where its pump sends, whether it runs, and
which feed is remembered.

Main statements: `FeedTable.subscribe_cases`, `FeedTable.getElem?_feeds_unsubscribe` and
`FeedTable.runs_handle`.
-/

namespace ParticleLedger

open Std (ExtTreeMap)

/-! ## The table -/

/-- A feed, as its pump knows it. -/
structure OwnedFeed where
  address : Address
  pump : Pump
  /-- To whom the pump sends. A subscription that is gone stays here until the next sending. -/
  senders : List Nat

/-- A feed opened for a first subscription. -/
def OwnedFeed.opened (a : Address) (first : Nat) : OwnedFeed := ⟨a, .start, [first]⟩

/-- A subscription, and the number of the feed that it holds. -/
structure Holder where
  feed : Nat
  subscription : Subscription

/-- All feeds ever opened and the subscriptions there are. -/
structure FeedTable where
  policy : RetryPolicy
  validator : AtomValidator
  /-- The feeds in the order in which they were opened. -/
  feeds : List OwnedFeed
  /-- The feed that was opened last for an address, as far as it is remembered. -/
  latest : ExtTreeMap Address Nat
  holders : ExtTreeMap Nat Holder
  /-- How many subscriptions there have been. -/
  opened : Nat
  counts : DeliveryCounts

namespace FeedTable

/-- No feeds yet. -/
def empty (policy : RetryPolicy) (validator : AtomValidator) : FeedTable :=
  ⟨policy, validator, [], ∅, ∅, 0, ⟨0, 0, 0⟩⟩

/-- The subscriptions that hold a feed. -/
def holdersOf (T : FeedTable) (n : Nat) : List Nat :=
  (T.holders.filter fun _ h => h.feed = n).keys

/-- How many subscriptions hold a feed. -/
def strongCount (T : FeedTable) (n : Nat) : Nat :=
  (T.holdersOf n).length

/-- Whether the pump of a feed runs. -/
def runs (T : FeedTable) (n : Nat) : Bool :=
  T.feeds[n]?.any (·.pump.running)

/-- The address of a feed. -/
def address? (T : FeedTable) (n : Nat) : Option Address :=
  T.feeds[n]?.map (·.address)

/-- To whom the pump of a feed sends. -/
def senders (T : FeedTable) (n : Nat) : List Nat :=
  (T.feeds[n]?.map (·.senders)).getD []

/-- The feed that a new subscription joins: the one that is remembered for the address, if somebody
holds it and it runs. -/
def joined? (T : FeedTable) (a : Address) : Option Nat :=
  T.latest[a]?.filter fun n => decide (0 < T.strongCount n) && T.runs n

/-- The feed that a new subscription holds. -/
def feedFor (T : FeedTable) (a : Address) : Nat :=
  (T.joined? a).getD T.feeds.length

/-- Hands a feed to a new subscription, and forgets the feeds that nobody holds. -/
def hold (T : FeedTable) (a : Address) (n : Nat) : FeedTable :=
  let T :=
    { T with
      holders := T.holders.insert T.opened (.mk n (.fresh a))
      opened := T.opened + 1 }
  { T with latest := T.latest.filter fun _ n => 0 < T.strongCount n }

/-- A new subscription joins a feed. -/
def join (T : FeedTable) (a : Address) (n : Nat) : FeedTable :=
  { T with feeds := T.feeds.modify n fun feed =>
      { feed with senders := feed.senders ++ [T.opened] } }.hold a n

/-- A feed is opened for a new subscription. -/
def start (T : FeedTable) (a : Address) : FeedTable :=
  { T with
    feeds := T.feeds ++ [OwnedFeed.opened a T.opened]
    latest := T.latest.insert a T.feeds.length }.hold a T.feeds.length

/-- Subscribes to an address; the number of the subscription is `T.opened`. -/
def subscribe (T : FeedTable) (a : Address) : FeedTable :=
  match T.joined? a with
  | some n => T.join a n
  | none => T.start a

/-- A subscription lets go of its feed. -/
def release (T : FeedTable) (id : Nat) : FeedTable :=
  { T with holders := T.holders.erase id }

/-- Drops a subscription; with the last one that holds it a feed ends. -/
def unsubscribe (T : FeedTable) (id : Nat) : FeedTable :=
  match T.holders[id]? with
  | none => T
  | some h =>
    let T := T.release id
    if T.strongCount h.feed = 0 then
      { T with feeds := T.feeds.modify h.feed fun feed => { feed with pump := feed.pump.stop } }
    else T

/-- Asks a subscription for its next atom. -/
def next (T : FeedTable) (id : Nat) : FeedTable × Poll (Except FeedError Atom) :=
  match T.holders[id]? with
  | none => (T, .ended)
  | some h =>
    ({ T with holders := T.holders.insert id { h with subscription := h.subscription.next.1 } },
      h.subscription.next.2)

/-- The pump of a feed sends an event to all that are still there, and strikes out the others. -/
def send (T : FeedTable) (n : Nat) (event : FeedEvent) : FeedTable :=
  { T with
    feeds := T.feeds.modify n fun feed =>
      { feed with senders := feed.senders.filter fun id => T.holders.contains id }
    holders := (T.senders n).foldl (fun holders id => holders.modify id fun h =>
      { h with subscription := h.subscription.receive event }) T.holders }

/-- The pump of a feed meets an event at time `now`. -/
def handle (T : FeedTable) (now n : Nat) (e : TransportEvent) : FeedTable :=
  match T.feeds[n]? with
  | none => T
  | some feed =>
    let h := feed.pump.handle T.policy T.validator now e
    let T :=
      { T with
        feeds := T.feeds.set n { feed with pump := h.pump }
        counts := h.verdict.elim T.counts T.counts.count }
    h.told.elim T (T.send n)

/-- What a user of the feeds, or the pump of one of them, does. -/
inductive Operation where
  | subscribe (a : Address)
  | unsubscribe (id : Nat)
  | next (id : Nat)
  /-- The pump of the feed of number `n` meets an event. -/
  | meets (now n : Nat) (e : TransportEvent)

/-- The table after an operation. -/
def after (T : FeedTable) : Operation → FeedTable
  | .subscribe a => T.subscribe a
  | .unsubscribe id => T.unsubscribe id
  | .next id => (T.next id).1
  | .meets now n e => T.handle now n e

@[simp] theorem after_subscribe (T : FeedTable) (a : Address) :
    T.after (.subscribe a) = T.subscribe a := rfl

@[simp] theorem after_unsubscribe (T : FeedTable) (id : Nat) :
    T.after (.unsubscribe id) = T.unsubscribe id := rfl

@[simp] theorem after_next (T : FeedTable) (id : Nat) : T.after (.next id) = (T.next id).1 := rfl

@[simp] theorem after_meets (T : FeedTable) (now n : Nat) (e : TransportEvent) :
    T.after (.meets now n e) = T.handle now n e := rfl

/-- The table after some operations, one after another. -/
def afterAll (T : FeedTable) (ops : List Operation) : FeedTable :=
  ops.foldl after T

@[simp] theorem afterAll_nil (T : FeedTable) : T.afterAll [] = T := rfl

@[simp] theorem afterAll_cons (T : FeedTable) (op : Operation) (ops : List Operation) :
    T.afterAll (op :: ops) = (T.after op).afterAll ops := rfl

theorem afterAll_append (T : FeedTable) (first later : List Operation) :
    T.afterAll (first ++ later) = (T.afterAll first).afterAll later :=
  List.foldl_append

variable {T : FeedTable} {a b : Address} {id j m n now : Nat} {e : TransportEvent}
  {event : FeedEvent} {op : Operation}

/-- All that some operations show on the way of what `out` looks at. -/
def collect {β : Type} (out : FeedTable → Operation → List β) (T : FeedTable) :
    List Operation → List β
  | [] => []
  | op :: rest => out T op ++ (T.after op).collect out rest

section Collect

variable {β : Type} {out : FeedTable → Operation → List β}

@[simp] theorem collect_nil : T.collect out [] = [] := rfl

@[simp] theorem collect_cons {ops : List Operation} :
    T.collect out (op :: ops) = out T op ++ (T.after op).collect out ops := rfl

theorem collect_append {first later : List Operation} : T.collect out (first ++ later) =
    T.collect out first ++ (T.afterAll first).collect out later := by
  induction first generalizing T with
  | nil => rfl
  | cons op rest ih => simp [ih]

end Collect

/-! ## Who holds a feed -/

/-- The feed that a subscription holds, and the address that it follows. -/
def place? (T : FeedTable) (j : Nat) : Option (Nat × Address) :=
  T.holders[j]?.map fun h => (h.feed, h.subscription.address)

/-- Some subscription holds the feed. -/
def Held (T : FeedTable) (n : Nat) : Prop :=
  ∃ j a, T.place? j = some (n, a)

theorem contains_of_place? {p : Nat × Address} (h : T.place? j = some p) :
    T.holders.contains j = true := by
  obtain ⟨held, hheld, -⟩ := Option.map_eq_some_iff.1 h
  rw [ExtTreeMap.contains_eq_isSome_getElem?, hheld]
  rfl

theorem mem_holdersOf : j ∈ T.holdersOf n ↔ ∃ a, T.place? j = some (n, a) := by
  rw [holdersOf, ExtTreeMap.mem_keys, ExtTreeMap.mem_iff_isSome_getElem?,
    ExtTreeMap.getElem?_filter, Option.pfilter_eq_filter, place?]
  cases T.holders[j]? with
  | none => simp
  | some h => by_cases hn : h.feed = n <;> simp [Option.filter, hn]

theorem nodup_holdersOf : (T.holdersOf n).Nodup :=
  ExtTreeMap.nodup_keys

theorem strongCount_pos_iff : 0 < T.strongCount n ↔ T.Held n := by
  rw [strongCount, List.length_pos_iff_exists_mem]
  simp only [mem_holdersOf, Held]

theorem strongCount_eq_zero_iff : T.strongCount n = 0 ↔ ¬T.Held n := by
  rw [← strongCount_pos_iff]
  omega

/-- A subscription is the only one that holds the feed. -/
theorem holdersOf_eq_singleton_iff : T.holdersOf n = [id] ↔
    (∃ a, T.place? id = some (n, a)) ∧ ∀ j a, T.place? j = some (n, a) → j = id := by
  constructor
  · intro h
    have hmem : ∀ j, (∃ a, T.place? j = some (n, a)) ↔ j = id := by
      intro j
      rw [← mem_holdersOf, h, List.mem_singleton]
    exact ⟨(hmem id).2 rfl, fun j a hj => (hmem j).1 ⟨a, hj⟩⟩
  · rintro ⟨hid, hothers⟩
    refine List.perm_singleton.1 ((List.perm_ext_iff_of_nodup nodup_holdersOf (by simp)).2 ?_)
    intro j
    rw [mem_holdersOf, List.mem_singleton]
    constructor
    · rintro ⟨a, hj⟩
      exact hothers j a hj
    · rintro rfl
      exact hid

theorem lt_of_runs (h : T.runs n) : n < T.feeds.length := by
  unfold runs at h
  cases hfeed : T.feeds[n]? with
  | none => simp [hfeed] at h
  | some feed => exact (List.getElem?_eq_some_iff.1 hfeed).1

theorem lt_of_address? (h : T.address? n = some a) : n < T.feeds.length := by
  obtain ⟨feed, hfeed, -⟩ := Option.map_eq_some_iff.1 h
  exact (List.getElem?_eq_some_iff.1 hfeed).1

theorem joined?_eq_some_iff :
    T.joined? a = some n ↔ T.latest[a]? = some n ∧ T.Held n ∧ T.runs n := by
  simp [joined?, Option.filter_eq_some_iff, strongCount_pos_iff]

/-- A new subscription joins the feed that is remembered, held and runs, or holds a new one. -/
theorem subscribe_cases (T : FeedTable) (a : Address) :
    (∃ n, T.joined? a = some n ∧ T.feedFor a = n ∧ T.subscribe a = T.join a n) ∨
    (T.joined? a = none ∧ T.feedFor a = T.feeds.length ∧ T.subscribe a = T.start a) := by
  unfold feedFor subscribe
  cases T.joined? a with
  | some n => exact .inl ⟨n, rfl, rfl, rfl⟩
  | none => exact .inr ⟨rfl, rfl, rfl⟩

/-! ## What an operation does to the holders -/

theorem getElem?_holders_subscribe : (T.subscribe a).holders[j]? =
    if j = T.opened then some ⟨T.feedFor a, .fresh a⟩ else T.holders[j]? := by
  have hhold : ∀ (T : FeedTable) (n : Nat), (T.hold a n).holders[j]? =
      if j = T.opened then some ⟨n, .fresh a⟩ else T.holders[j]? := by
    intro T n
    simp only [hold, ExtTreeMap.getElem?_insert, Nat.compare_eq_eq, @eq_comm Nat T.opened]
  obtain ⟨n, -, hn, hjoin⟩ | ⟨-, hn, hstart⟩ := T.subscribe_cases a
  · rw [hjoin, hn]
    exact hhold _ n
  · rw [hstart, hn]
    exact hhold _ T.feeds.length

theorem getElem?_holders_release :
    (T.release id).holders[j]? = if j = id then none else T.holders[j]? := by
  simp only [release, ExtTreeMap.getElem?_erase, Nat.compare_eq_eq, @eq_comm Nat id]

theorem getElem?_holders_unsubscribe :
    (T.unsubscribe id).holders[j]? = if j = id then none else T.holders[j]? := by
  unfold unsubscribe
  cases hid : T.holders[id]? with
  | none =>
    by_cases hj : j = id
    · rw [if_pos hj, hj, hid]
    · rw [if_neg hj]
  | some h =>
    simp only
    split <;> exact getElem?_holders_release

theorem getElem?_holders_next : (T.next id).1.holders[j]? =
    if j = id then
      T.holders[j]?.map fun h => { h with subscription := h.subscription.next.1 }
    else T.holders[j]? := by
  unfold next
  by_cases hj : j = id
  · subst hj
    cases hs : T.holders[j]? with
    | none => simpa using hs
    | some h => simp
  · cases T.holders[id]? with
    | none => simp [hj]
    | some h => simp [ExtTreeMap.getElem?_insert, hj, Ne.symm hj]

/-- A subscription is told as often as it is listed. -/
theorem getElem?_holders_send : (T.send n event).holders[j]? = T.holders[j]?.map fun h =>
    ⟨h.feed, { h.subscription with
      inbox := h.subscription.inbox ++ List.replicate ((T.senders n).count j) event }⟩ := by
  simp only [send]
  generalize T.senders n = senders
  generalize T.holders = holders
  induction senders generalizing holders with
  | nil => simp
  | cons id rest ih =>
    have hfirst : (holders.modify id fun h =>
        { h with subscription := h.subscription.receive event })[j]? = holders[j]?.map fun h =>
          if id = j then ⟨h.feed, h.subscription.receive event⟩ else h := by
      simp only [ExtTreeMap.getElem?_modify, Nat.compare_eq_eq]
      by_cases hid : id = j <;> simp [hid]
    rw [List.foldl_cons, ih, hfirst, Option.map_map]
    congr 1
    funext h
    by_cases hid : id = j
    · simp [hid, Subscription.receive, List.replicate_succ]
    · simp [hid]

/-- What the pump of a feed says to its subscriptions when it meets an event. -/
def told (T : FeedTable) (now n : Nat) (e : TransportEvent) : Option FeedEvent :=
  T.feeds[n]?.bind fun feed => (feed.pump.handle T.policy T.validator now e).told

theorem getElem?_holders_handle : (T.handle now n e).holders[j]? =
    match T.told now n e with
    | none => T.holders[j]?
    | some event => T.holders[j]?.map fun h =>
        ⟨h.feed, { h.subscription with
          inbox := h.subscription.inbox ++ List.replicate ((T.senders n).count j) event }⟩ := by
  unfold handle told
  cases hfeed : T.feeds[n]? with
  | none => rfl
  | some feed =>
    obtain ⟨hlt, hget⟩ := List.getElem?_eq_some_iff.1 hfeed
    simp only [Option.bind_some]
    cases (feed.pump.handle T.policy T.validator now e).told with
    | none => rfl
    | some event => simp [getElem?_holders_send, senders, hlt, hget]

/-! ## What an operation does to the places -/

@[simp] theorem place?_subscribe : (T.subscribe a).place? j =
    if j = T.opened then some (T.feedFor a, a) else T.place? j := by
  unfold place?
  rw [getElem?_holders_subscribe]
  split <;> rfl

@[simp] theorem place?_release :
    (T.release id).place? j = if j = id then none else T.place? j := by
  unfold place?
  rw [getElem?_holders_release]
  split <;> rfl

@[simp] theorem place?_unsubscribe : (T.unsubscribe id).place? j = (T.release id).place? j := by
  unfold place?
  rw [getElem?_holders_unsubscribe, getElem?_holders_release]

@[simp] theorem place?_next : (T.next id).1.place? j = T.place? j := by
  unfold place?
  rw [getElem?_holders_next]
  split
  · simp [Function.comp_def, Subscription.address_next]
  · rfl

@[simp] theorem place?_handle : (T.handle now n e).place? j = T.place? j := by
  unfold place?
  rw [getElem?_holders_handle]
  cases T.told now n e with
  | none => rfl
  | some event => simp [Function.comp_def]

@[simp] theorem held_next : (T.next id).1.Held m ↔ T.Held m := by
  simp only [Held, place?_next]

@[simp] theorem held_handle : (T.handle now n e).Held m ↔ T.Held m := by
  simp only [Held, place?_handle]

theorem held_release : (T.release id).Held m ↔ T.Held m ∧ T.holdersOf m ≠ [id] := by
  rw [Ne, holdersOf_eq_singleton_iff]
  constructor
  · rintro ⟨j, a, hj⟩
    rw [place?_release] at hj
    split at hj
    · contradiction
    · next hid => exact ⟨⟨j, a, hj⟩, fun hsole => hid (hsole.2 j a hj)⟩
  · rintro ⟨⟨j, a, hj⟩, hsole⟩
    refine Classical.byContradiction fun hnone => ?_
    have hothers : ∀ i b, T.place? i = some (m, b) → i = id := by
      intro i b hi
      refine Classical.byContradiction fun hid => hnone ⟨i, b, ?_⟩
      rw [place?_release, if_neg hid, hi]
    exact hsole ⟨⟨a, hothers j a hj ▸ hj⟩, hothers⟩

@[simp] theorem held_unsubscribe : (T.unsubscribe id).Held m ↔ (T.release id).Held m := by
  simp only [Held, place?_unsubscribe]

/-! ## What an operation does to the feeds -/

theorem getElem?_feeds_join : (T.join a n).feeds[m]? = T.feeds[m]?.map fun feed =>
    if n = m then { feed with senders := feed.senders ++ [T.opened] } else feed := by
  simp only [join, hold, List.getElem?_modify, Option.map_eq_map]

theorem getElem?_feeds_start : (T.start a).feeds[m]? =
    if m = T.feeds.length then some (.opened a T.opened) else T.feeds[m]? := by
  simp only [start, hold]
  split
  · next hm => simp [hm]
  · next hm =>
    rcases Nat.lt_or_gt_of_ne hm with hlt | hgt
    · rw [List.getElem?_append_left hlt]
    · rw [List.getElem?_eq_none (by simp; omega), List.getElem?_eq_none (by omega)]

/-- Only who held a feed alone stops its pump by going. -/
theorem getElem?_feeds_unsubscribe : (T.unsubscribe id).feeds[m]? = T.feeds[m]?.map fun feed =>
    if T.holdersOf m = [id] then { feed with pump := feed.pump.stop } else feed := by
  unfold unsubscribe
  cases hid : T.holders[id]? with
  | none =>
    have hsole : T.holdersOf m ≠ [id] := by
      rw [Ne, holdersOf_eq_singleton_iff]
      rintro ⟨⟨a, ha⟩, -⟩
      simp [place?, hid] at ha
    simp [hsole]
  | some h =>
    have hplace : T.place? id = some (h.feed, h.subscription.address) := by simp [place?, hid]
    have hheld : T.Held h.feed := ⟨id, _, hplace⟩
    have hlast : (T.release id).strongCount h.feed = 0 ↔ T.holdersOf h.feed = [id] := by
      rw [strongCount_eq_zero_iff, held_release]
      simp [hheld]
    have hown : T.holdersOf m = [id] → m = h.feed := by
      intro hsole
      obtain ⟨⟨a, ha⟩, -⟩ := holdersOf_eq_singleton_iff.1 hsole
      rw [hplace] at ha
      cases ha
      rfl
    simp only [hlast]
    by_cases hm : m = h.feed
    · subst hm
      split <;> simp [release, *]
    · have hsole : T.holdersOf m ≠ [id] := fun hsole => hm (hown hsole)
      split <;> simp [release, Ne.symm hm]

@[simp] theorem feeds_next : (T.next id).1.feeds = T.feeds := by
  unfold next
  cases T.holders[id]? <;> rfl

theorem getElem?_feeds_handle : (T.handle now n e).feeds[m]? = T.feeds[m]?.map fun feed =>
    if n = m then
      { feed with
        pump := (feed.pump.handle T.policy T.validator now e).pump
        senders := (T.told now n e).elim feed.senders fun _ =>
          feed.senders.filter fun id => T.holders.contains id }
    else feed := by
  unfold handle told
  cases hfeed : T.feeds[n]? with
  | none =>
    by_cases hm : n = m
    · simp [← hm, hfeed]
    · simp [hm]
  | some feed =>
    obtain ⟨hlt, hget⟩ := List.getElem?_eq_some_iff.1 hfeed
    simp only [Option.bind_some]
    cases htold : (feed.pump.handle T.policy T.validator now e).told with
    | none =>
      by_cases hm : n = m
      · subst hm
        simp [hlt, hget]
      · simp [hm]
    | some event =>
      by_cases hm : n = m
      · subst hm
        simp [send, hlt, hget]
      · simp [send, hm]

/-- The feed gives up when its pump meets the event. -/
def GivesUp (T : FeedTable) (now n : Nat) (e : TransportEvent) : Prop :=
  ∃ attempts last, T.told now n e = some (.exhausted attempts last)

section Observables

@[simp] theorem address?_unsubscribe : (T.unsubscribe id).address? m = T.address? m := by
  unfold address?
  rw [getElem?_feeds_unsubscribe, Option.map_map]
  congr 1
  funext feed
  by_cases hm : T.holdersOf m = [id] <;> simp [hm]

@[simp] theorem address?_next : (T.next id).1.address? m = T.address? m := by
  rw [address?, feeds_next, address?]

@[simp] theorem address?_handle : (T.handle now n e).address? m = T.address? m := by
  unfold address?
  rw [getElem?_feeds_handle, Option.map_map]
  congr 1
  funext feed
  by_cases hm : n = m <;> simp [hm]

@[simp] theorem runs_subscribe :
    (T.subscribe a).runs m = (decide (m = T.feedFor a) || T.runs m) := by
  unfold runs
  obtain ⟨n, hjoined, hn, hjoin⟩ | ⟨-, hn, hstart⟩ := T.subscribe_cases a
  · have hruns : T.feeds[n]?.any (·.pump.running) = true := (joined?_eq_some_iff.1 hjoined).2.2
    rw [hjoin, hn, getElem?_feeds_join, Option.any_map]
    by_cases hm : n = m
    · subst hm
      simpa using hruns
    · simp [hm, Ne.symm hm]
  · rw [hstart, hn, getElem?_feeds_start]
    by_cases hm : m = T.feeds.length
    · simp [hm, OwnedFeed.opened, Pump.start, Pump.running]
    · simp [hm]

theorem runs_unsubscribe :
    (T.unsubscribe id).runs m ↔ T.runs m ∧ T.holdersOf m ≠ [id] := by
  unfold runs
  rw [getElem?_feeds_unsubscribe, Option.any_map]
  by_cases hm : T.holdersOf m = [id]
  · simp [hm, Pump.stop, Pump.running]
  · simp [hm]

@[simp] theorem runs_next : (T.next id).1.runs m = T.runs m := by
  rw [runs, feeds_next, runs]

theorem runs_handle :
    (T.handle now n e).runs m ↔ T.runs m ∧ ¬(n = m ∧ T.GivesUp now n e) := by
  unfold runs
  rw [getElem?_feeds_handle, Option.any_map]
  by_cases hm : n = m
  · subst hm
    unfold GivesUp told
    cases T.feeds[n]? with
    | none => simp
    | some feed =>
      have hdoes := feed.pump.does_handle T.policy T.validator now e
      simp only [Option.any_some, Option.bind_some]
      cases hdoes with
      | silent htold _ hsame => simp [htold, hsame]
      | delivers htold _ _ _ _ hsame => simp [htold, hsame]
      | givesUp htold _ hrunning hstopped => simp [htold, hstopped]
  · simp [hm]

@[simp] theorem senders_subscribe : (T.subscribe a).senders m =
    if m = T.feedFor a then T.senders m ++ [T.opened] else T.senders m := by
  unfold senders
  obtain ⟨n, hjoined, hn, hjoin⟩ | ⟨-, hn, hstart⟩ := T.subscribe_cases a
  · have hlt : n < T.feeds.length := lt_of_runs (joined?_eq_some_iff.1 hjoined).2.2
    rw [hjoin, hn, getElem?_feeds_join]
    by_cases hm : n = m
    · subst hm
      simp [hlt]
    · simp [hm, Ne.symm hm]
  · rw [hstart, hn, getElem?_feeds_start]
    by_cases hm : m = T.feeds.length
    · simp [hm, OwnedFeed.opened]
    · simp [hm]

@[simp] theorem senders_unsubscribe : (T.unsubscribe id).senders m = T.senders m := by
  unfold senders
  rw [getElem?_feeds_unsubscribe, Option.map_map]
  congr 2
  funext feed
  by_cases hm : T.holdersOf m = [id] <;> simp [hm]

@[simp] theorem senders_next : (T.next id).1.senders m = T.senders m := by
  rw [senders, feeds_next, senders]

/-- The pump strikes out only who is gone. -/
theorem senders_handle : (T.handle now n e).senders m = T.senders m ∨
    (T.handle now n e).senders m = (T.senders m).filter fun id => T.holders.contains id := by
  unfold senders
  rw [getElem?_feeds_handle]
  cases T.feeds[m]? with
  | none => exact .inl rfl
  | some feed =>
    by_cases hm : n = m
    · cases htold : T.told now n e with
      | none => exact .inl (by simp [hm])
      | some event => exact .inr (by simp [hm])
    · exact .inl (by simp [hm])

end Observables

/-! ## What an operation does to the memory of the table -/

/-- The feed of the new subscription is remembered, and what nobody holds is forgotten. -/
theorem getElem?_latest_subscribe : (T.subscribe a).latest[b]? = some m ↔
    (if b = a then some (T.feedFor a) else T.latest[b]?) = some m ∧ (T.subscribe a).Held m := by
  rw [← strongCount_pos_iff]
  obtain ⟨n, hjoined, hn, hjoin⟩ | ⟨-, hn, hstart⟩ := T.subscribe_cases a
  · have hlatest : T.latest[b]? = if b = a then some n else T.latest[b]? := by
      split
      · next hb => exact hb ▸ (joined?_eq_some_iff.1 hjoined).1
      · rfl
    rw [hjoin, hn, ← hlatest]
    simp only [join, hold, ExtTreeMap.getElem?_filter, Option.pfilter_eq_filter,
      Option.filter_eq_some_iff, decide_eq_true_eq]
    rfl
  · rw [hstart, hn]
    simp only [start, hold, ExtTreeMap.getElem?_filter, Option.pfilter_eq_filter,
      Option.filter_eq_some_iff, decide_eq_true_eq, ExtTreeMap.getElem?_insert,
      Std.compare_eq_iff_eq, @eq_comm Address a]
    rfl

@[simp] theorem opened_subscribe : (T.subscribe a).opened = T.opened + 1 := by
  unfold subscribe
  cases T.joined? a <;> rfl

@[simp] theorem latest_unsubscribe : (T.unsubscribe id).latest = T.latest := by
  unfold unsubscribe
  cases T.holders[id]? with
  | none => rfl
  | some h =>
    simp only
    split <;> rfl

@[simp] theorem latest_next : (T.next id).1.latest = T.latest := by
  unfold next
  cases T.holders[id]? <;> rfl

@[simp] theorem latest_handle : (T.handle now n e).latest = T.latest := by
  unfold handle
  cases T.feeds[n]? with
  | none => rfl
  | some feed =>
    simp only
    cases (feed.pump.handle T.policy T.validator now e).told <;> rfl

@[simp] theorem opened_unsubscribe : (T.unsubscribe id).opened = T.opened := by
  unfold unsubscribe
  cases T.holders[id]? with
  | none => rfl
  | some h =>
    simp only
    split <;> rfl

@[simp] theorem opened_next : (T.next id).1.opened = T.opened := by
  unfold next
  cases T.holders[id]? <;> rfl

@[simp] theorem opened_handle : (T.handle now n e).opened = T.opened := by
  unfold handle
  cases T.feeds[n]? with
  | none => rfl
  | some feed =>
    simp only
    cases (feed.pump.handle T.policy T.validator now e).told <;> rfl

end FeedTable

end ParticleLedger
