import ParticleLedger.Proofs.Feed.Ownership
import ParticleLedger.Proofs.Feed.Sharing

/-!
# The table of feeds and the filter

The filter keeps of the table what can still make a difference: for each address the feed that is
remembered, with its pump and those of its subscribers that are still there. A feed that the table
has forgotten, or has replaced, runs no more, so leaving it out changes nothing. Hence the filter
goes through the same states: what is kept after an operation on the table is what the filter makes
of the same operation on what was kept before (`toFilter_after`), and there is no run of the filter
that does not come about in this way (`exists_toFilter_afterAll`).

Main statements: `toFilter_afterAll`, `exists_toFilter_afterAll` and `subscriberCount_toFilter`.
-/

namespace ParticleLedger

open Std (ExtTreeMap)

/-- Filters with the same feeds and subscriptions differ at most in what they count and how they are
set up. -/
theorem DeliveryFilter.ext_getElem? {f g : DeliveryFilter}
    (hfeeds : ∀ a : Address, f.feeds[a]? = g.feeds[a]?)
    (hsubscriptions : ∀ j : Nat, f.subscriptions[j]? = g.subscriptions[j]?)
    (hrest : f.policy = g.policy ∧ f.validator = g.validator ∧ f.opened = g.opened ∧
      f.counts = g.counts) : f = g := by
  obtain ⟨policy, validator, feeds, subscriptions, opened, counts⟩ := f
  have hfeeds := ExtTreeMap.ext_getElem? hfeeds
  have hsubscriptions := ExtTreeMap.ext_getElem? hsubscriptions
  simp_all

namespace FeedTable

variable {T : FeedTable} {a b : Address} {id j m n now : Nat} {e : TransportEvent}
  {op : Operation} {feed : Feed}

/-! ## What the filter keeps -/

/-- A feed with those of its subscribers that are still there. -/
def shared? (T : FeedTable) (n : Nat) : Option Feed :=
  T.feeds[n]?.map fun feed =>
    ⟨feed.pump, feed.senders.filter fun id => T.holders.contains id⟩

/-- What the filter keeps of the table. -/
def toFilter (T : FeedTable) : DeliveryFilter where
  policy := T.policy
  validator := T.validator
  feeds := T.latest.filterMap fun _ n => T.shared? n
  subscriptions := T.holders.map fun _ h => h.subscription
  opened := T.opened
  counts := T.counts

@[simp] theorem getElem?_feeds_toFilter :
    T.toFilter.feeds[a]? = T.latest[a]?.bind T.shared? := by
  simp only [toFilter, ExtTreeMap.getElem?_filterMap, Option.pbind_eq_bind]

@[simp] theorem getElem?_subscriptions_toFilter :
    T.toFilter.subscriptions[j]? = T.holders[j]?.map (·.subscription) := by
  simp only [toFilter, ExtTreeMap.getElem?_map]

@[simp] theorem policy_toFilter : T.toFilter.policy = T.policy := rfl

@[simp] theorem validator_toFilter : T.toFilter.validator = T.validator := rfl

/-- Whom the filter counts among the subscribers of a feed: who holds it. -/
theorem Owned.mem_members_iff (h : T.Owned) (hfeed : T.shared? n = some feed) :
    j ∈ feed.members ↔ j ∈ T.holdersOf n := by
  obtain ⟨old, hold, rfl⟩ := Option.map_eq_some_iff.1 hfeed
  have hsenders : T.senders n = old.senders := by simp [senders, hold]
  simp only [List.mem_filter, mem_holdersOf, ← hsenders]
  constructor
  · rintro ⟨hmem, hlive⟩
    obtain ⟨held, hheld⟩ : ∃ held, T.holders[j]? = some held := by
      rwa [ExtTreeMap.contains_eq_isSome_getElem?, Option.isSome_iff_exists] at hlive
    have hplace : T.place? j = some (held.feed, held.subscription.address) := by
      simp [place?, hheld]
    rw [(h.sent j n hmem).2 _ _ hplace] at hplace
    exact ⟨_, hplace⟩
  · rintro ⟨a, hplace⟩
    exact ⟨(h.attached j n a hplace).1, contains_of_place? hplace⟩

theorem Owned.length_members (h : T.Owned) (hfeed : T.shared? n = some feed) :
    feed.members.length = T.strongCount n := by
  obtain ⟨old, hold, hof⟩ := Option.map_eq_some_iff.1 hfeed
  have hnodup : feed.members.Nodup := by
    have hsenders := h.nodup n
    simp only [senders, hold, Option.map_some, Option.getD_some] at hsenders
    rw [← hof]
    exact hsenders.filter _
  refine List.Perm.length_eq ((List.perm_ext_iff_of_nodup hnodup nodup_holdersOf).2 ?_)
  intro j
  exact h.mem_members_iff hfeed

theorem Owned.members_eq_nil_iff (h : T.Owned) (hfeed : T.shared? n = some feed) :
    feed.members = [] ↔ ¬T.Held n := by
  rw [← strongCount_eq_zero_iff, ← h.length_members hfeed, List.length_eq_zero_iff]

theorem running_shared? (hfeed : T.shared? n = some feed) : feed.pump.running = T.runs n := by
  obtain ⟨old, hold, rfl⟩ := Option.map_eq_some_iff.1 hfeed
  simp [runs, hold]

/-- A feed that is remembered is there. -/
theorem Owned.exists_shared? (h : T.Owned) (hn : T.latest[a]? = some n) :
    ∃ feed, T.shared? n = some feed := by
  obtain ⟨old, hold, -⟩ := Option.map_eq_some_iff.1 (h.newest a n hn).1
  exact ⟨_, by rw [shared?, hold, Option.map_some]⟩

/-! ## Subscriptions come -/

/-- Who was there before the new subscription is there still. -/
theorem Owned.filter_senders_subscribe (h : T.Owned) {old : OwnedFeed}
    (hold : T.feeds[m]? = some old) :
    (old.senders.filter fun id => (T.subscribe a).holders.contains id) =
      old.senders.filter fun id => T.holders.contains id := by
  apply List.filter_congr
  intro j hj
  have hlt : j < T.opened := (h.sent j m (by simpa [senders, hold] using hj)).1
  simp only [ExtTreeMap.contains_eq_isSome_getElem?, getElem?_holders_subscribe,
    if_neg (Nat.ne_of_lt hlt)]

theorem Owned.shared?_subscribe (h : T.Owned) (hm : m ≠ T.feedFor a) :
    (T.subscribe a).shared? m = T.shared? m := by
  have hfeeds : (T.subscribe a).feeds[m]? = T.feeds[m]? := by
    obtain ⟨n, -, hn, hjoin⟩ | ⟨-, hn, hstart⟩ := T.subscribe_cases a
    · rw [hjoin, getElem?_feeds_join]
      rw [hn] at hm
      simp [Ne.symm hm]
    · rw [hstart, getElem?_feeds_start, if_neg (hn ▸ hm)]
  unfold shared?
  rw [hfeeds]
  cases hold : T.feeds[m]? with
  | none => rfl
  | some old => simp only [Option.map_some, h.filter_senders_subscribe hold]

/-- The filter gives a new subscription the same feed as the table. -/
theorem Owned.shared?_feedFor (h : T.Owned) :
    (T.subscribe a).shared? (T.feedFor a) = some (T.toFilter.feedToJoin a) := by
  have hnew : T.opened ∈ (T.subscribe a).holders := by
    simp [ExtTreeMap.mem_iff_isSome_getElem?, getElem?_holders_subscribe]
  obtain ⟨n, hjoined, hn, hjoin⟩ | ⟨hnone, hn, hstart⟩ := T.subscribe_cases a
  · obtain ⟨hlatest, hheld, hruns⟩ := joined?_eq_some_iff.1 hjoined
    obtain ⟨feed, hfeed⟩ := h.exists_shared? hlatest
    have hmembers : feed.members ≠ [] := fun hnil => (h.members_eq_nil_iff hfeed).1 hnil hheld
    have hjoins : feed.joinable = true :=
      Feed.joinable_iff.2 ⟨hmembers, (running_shared? hfeed).trans hruns⟩
    have hgiven : T.toFilter.feedToJoin a =
        { feed with members := feed.members ++ [T.opened] } := by
      simp [DeliveryFilter.feedToJoin, hlatest, hfeed, hjoins, toFilter]
    obtain ⟨old, hold, rfl⟩ := Option.map_eq_some_iff.1 hfeed
    rw [hgiven, hn, shared?]
    have hfeeds : (T.subscribe a).feeds[n]? =
        some { old with senders := old.senders ++ [T.opened] } := by
      rw [hjoin, getElem?_feeds_join, hold]
      simp
    simp [hfeeds, List.filter_append, h.filter_senders_subscribe hold, hnew]
  · have hgiven : T.toFilter.feedToJoin a = .opened T.opened := by
      refine DeliveryFilter.feedToJoin_of_not_joinable fun feed hfeed => ?_
      rw [getElem?_feeds_toFilter, Option.bind_eq_some_iff] at hfeed
      obtain ⟨m, hlatest, hshared⟩ := hfeed
      rw [← Bool.not_eq_true]
      intro hjoins
      obtain ⟨hmembers, hruns⟩ := Feed.joinable_iff.1 hjoins
      have hheld : T.Held m :=
        Classical.not_not.1 fun hnot => hmembers ((h.members_eq_nil_iff hshared).2 hnot)
      rw [running_shared? hshared] at hruns
      have hjoined := joined?_eq_some_iff.2 ⟨hlatest, hheld, hruns⟩
      rw [hnone] at hjoined
      contradiction
    have hfeeds : (T.subscribe a).feeds[T.feedFor a]? = some (.opened a T.opened) := by
      rw [hstart, hn, getElem?_feeds_start, if_pos rfl]
    rw [hgiven, shared?, hfeeds]
    simp [OwnedFeed.opened, Feed.opened, hnew]

theorem Owned.ne_feedFor (h : T.Owned) (hb : b ≠ a) (hm : T.latest[b]? = some m) :
    m ≠ T.feedFor a :=
  fun heq => hb (h.address?_feedFor (heq ▸ (h.newest b m hm).1))

/-- Of another address, a feed that nobody holds is forgotten. -/
theorem Owned.latest_subscribe_of_ne (h : T.Owned) (hb : b ≠ a) :
    (T.subscribe a).latest[b]? = T.latest[b]?.filter fun m => 0 < T.strongCount m := by
  apply Option.ext
  intro m
  rw [getElem?_latest_subscribe, if_neg hb, Option.filter_eq_some_iff, decide_eq_true_eq,
    strongCount_pos_iff]
  refine and_congr_right fun hm => ?_
  rw [h.held_subscribe]
  simp [h.ne_feedFor hb hm]

theorem toFilter_subscribe (h : T.Owned) :
    (T.subscribe a).toFilter = T.toFilter.subscribe a := by
  refine DeliveryFilter.ext_getElem? (fun b => ?_) (fun j => ?_) ?_
  · rw [DeliveryFilter.getElem?_feeds_subscribe, getElem?_feeds_toFilter,
      getElem?_feeds_toFilter]
    split
    · next hb =>
      subst hb
      have hlatest := getElem?_latest_subscribe.2
        ⟨if_pos rfl, h.held_subscribe.2 (.inl (rfl : T.feedFor b = _))⟩
      rw [hlatest, Option.bind_some, h.shared?_feedFor]
    · next hb =>
      rw [h.latest_subscribe_of_ne hb]
      cases hm : T.latest[b]? with
      | none => rfl
      | some m =>
        obtain ⟨feed, hfeed⟩ := h.exists_shared? hm
        have hsame := h.shared?_subscribe (h.ne_feedFor hb hm)
        have hempty : feed.members = [] ↔ ¬0 < T.strongCount m := by
          rw [h.members_eq_nil_iff hfeed, strongCount_pos_iff]
        by_cases hheld : 0 < T.strongCount m
        · simp [Option.filter, hheld, hsame, hfeed, hempty]
        · simp [Option.filter, hheld, hfeed, hempty]
  · rw [DeliveryFilter.getElem?_subscriptions_subscribe, getElem?_subscriptions_toFilter,
      getElem?_subscriptions_toFilter, getElem?_holders_subscribe]
    by_cases hj : j = T.opened
    · subst hj
      simp [toFilter]
    · rw [if_neg hj]
      exact (if_neg hj).symm
  · unfold subscribe
    cases T.joined? a <;> exact ⟨rfl, rfl, rfl, rfl⟩

/-! ## Subscriptions go -/

/-- A subscription that goes is no subscriber any more; who held the feed alone stops its pump. -/
theorem shared?_unsubscribe : (T.unsubscribe id).shared? n = (T.shared? n).map fun feed =>
    ⟨if T.holdersOf n = [id] then feed.pump.stop else feed.pump,
      feed.members.filter (· ≠ id)⟩ := by
  have hlive : ∀ j, (T.unsubscribe id).holders.contains j =
      (decide (j ≠ id) && T.holders.contains j) := by
    intro j
    rw [ExtTreeMap.contains_eq_isSome_getElem?, getElem?_holders_unsubscribe,
      ExtTreeMap.contains_eq_isSome_getElem?]
    by_cases hj : j = id <;> simp [hj]
  unfold shared?
  rw [getElem?_feeds_unsubscribe, Option.map_map, Option.map_map]
  congr 1
  funext feed
  by_cases hsole : T.holdersOf n = [id] <;> simp [hsole, hlive, List.filter_filter]

/-- The pump of the last feed of an address stops when the filter has it stop. -/
theorem Owned.leave_eq (h : T.Owned) (hn : T.latest[a]? = some n)
    (hfeed : T.shared? n = some feed) :
    (if T.toFilter.subscriptions[id]?.any (·.address = a) then feed.leave id else feed) =
      ⟨if T.holdersOf n = [id] then feed.pump.stop else feed.pump,
        feed.members.filter (· ≠ id)⟩ := by
  have hany : T.toFilter.subscriptions[id]?.any (·.address = a) = true ↔
      ∃ k, T.place? id = some (k, a) := by
    rw [getElem?_subscriptions_toFilter, place?]
    cases T.holders[id]? <;> simp
  by_cases hleaves : T.toFilter.subscriptions[id]?.any (·.address = a) = true
  · rw [if_pos hleaves]
    have hempty : (feed.members.filter (· ≠ id)).isEmpty = true ↔
        ∀ j b, T.place? j = some (n, b) → j = id := by
      simp only [List.isEmpty_iff, List.filter_eq_nil_iff, h.mem_members_iff hfeed, mem_holdersOf]
      constructor
      · intro hall j b hj
        simpa using hall j ⟨b, hj⟩
      · rintro hall j ⟨b, hj⟩
        simp [hall j b hj]
    by_cases hheld : T.Held n
    · have hsole : T.holdersOf n = [id] ↔ (feed.members.filter (· ≠ id)).isEmpty = true := by
        rw [holdersOf_eq_singleton_iff, hempty, and_iff_right_iff_imp]
        intro hall
        obtain ⟨j, b, hj⟩ := hheld
        exact ⟨b, hall j b hj ▸ hj⟩
      simp only [Feed.leave, hsole]
    · -- Nobody holds the feed, so its pump has stopped before.
      have hstopped : feed.pump.running = false := by
        rw [running_shared? hfeed, ← Bool.not_eq_true]
        exact fun hruns => hheld (h.running n hruns).1
      simp only [Feed.leave, Pump.stop_of_stopped hstopped, ite_self]
  · rw [if_neg hleaves]
    have hid : id ∉ T.holdersOf n := by
      rw [mem_holdersOf]
      rintro ⟨b, hb⟩
      obtain rfl : b = a :=
        Option.some_inj.1 ((h.attached id n b hb).2.symm.trans (h.newest a n hn).1)
      exact hleaves (hany.2 ⟨n, hb⟩)
    have hsole : T.holdersOf n ≠ [id] := fun hsole => hid (hsole ▸ List.mem_singleton_self id)
    have hstay : feed.members.filter (· ≠ id) = feed.members := by
      rw [List.filter_eq_self]
      intro j hj
      have hother : j ≠ id := fun heq => hid (heq ▸ (h.mem_members_iff hfeed).1 hj)
      simpa using hother
    rw [if_neg hsole, hstay]

theorem toFilter_unsubscribe (h : T.Owned) :
    (T.unsubscribe id).toFilter = T.toFilter.unsubscribe id := by
  refine DeliveryFilter.ext_getElem? (fun a => ?_) (fun j => ?_) ?_
  · rw [DeliveryFilter.getElem?_feeds_unsubscribe, getElem?_feeds_toFilter,
      getElem?_feeds_toFilter, latest_unsubscribe]
    cases hn : T.latest[a]? with
    | none => rfl
    | some n =>
      obtain ⟨feed, hfeed⟩ := h.exists_shared? hn
      simp only [Option.bind_some, shared?_unsubscribe, hfeed, Option.map_some, h.leave_eq hn hfeed]
  · rw [DeliveryFilter.getElem?_subscriptions_unsubscribe, getElem?_subscriptions_toFilter,
      getElem?_subscriptions_toFilter, getElem?_holders_unsubscribe]
    split <;> rfl
  · simp only [unsubscribe, DeliveryFilter.unsubscribe, getElem?_subscriptions_toFilter]
    cases T.holders[id]? with
    | none => exact ⟨rfl, rfl, rfl, rfl⟩
    | some h =>
      simp only [Option.map_some]
      split <;> exact ⟨rfl, rfl, rfl, rfl⟩

/-! ## Subscriptions ask -/

theorem toFilter_next : (T.next id).1.toFilter = (T.toFilter.next id).1 := by
  have hshared : (T.next id).1.shared? = T.shared? := by
    funext n
    have hlive : ∀ j, (T.next id).1.holders.contains j = T.holders.contains j := by
      intro j
      rw [ExtTreeMap.contains_eq_isSome_getElem?, getElem?_holders_next,
        ExtTreeMap.contains_eq_isSome_getElem?]
      split <;> simp
    simp only [shared?, feeds_next, hlive]
  refine DeliveryFilter.ext_getElem? (fun a => ?_) (fun j => ?_) ?_
  · rw [DeliveryFilter.feeds_next, getElem?_feeds_toFilter, getElem?_feeds_toFilter, latest_next,
      hshared]
  · rw [DeliveryFilter.getElem?_subscriptions_next, getElem?_subscriptions_toFilter,
      getElem?_subscriptions_toFilter, getElem?_holders_next]
    split
    · simp [Function.comp_def]
    · rfl
  · simp only [next, DeliveryFilter.next, getElem?_subscriptions_toFilter]
    cases T.holders[id]? <;> exact ⟨rfl, rfl, rfl, rfl⟩

theorem next_toFilter : (T.toFilter.next id).2 = (T.next id).2 := by
  simp only [DeliveryFilter.next, next, getElem?_subscriptions_toFilter]
  cases T.holders[id]? <;> rfl

/-! ## Pumps meet events -/

/-- A feed that has stopped is silent, whatever its pump meets. -/
theorem handle_of_stopped (h : T.runs n = false) : T.handle now n e = T := by
  unfold handle
  cases hfeed : T.feeds[n]? with
  | none => rfl
  | some feed =>
    have hstopped : feed.pump.running = false := by simpa [runs, hfeed] using h
    obtain ⟨hlt, rfl⟩ := List.getElem?_eq_some_iff.1 hfeed
    simp only [Pump.handle_of_stopped hstopped]
    exact congrArg (fun feeds => { T with feeds }) (List.set_getElem_self hlt)

theorem shared?_handle : (T.handle now n e).shared? m = (T.shared? m).map fun feed =>
    if n = m then { feed with pump := (feed.pump.handle T.policy T.validator now e).pump }
    else feed := by
  have hlive : ∀ j, (T.handle now n e).holders.contains j = T.holders.contains j := by
    intro j
    rw [ExtTreeMap.contains_eq_isSome_getElem?, getElem?_holders_handle,
      ExtTreeMap.contains_eq_isSome_getElem?]
    cases T.told now n e <;> simp
  unfold shared?
  rw [getElem?_feeds_handle, Option.map_map, Option.map_map]
  congr 1
  funext feed
  by_cases hm : n = m
  · subst hm
    cases T.told now n e <;> simp [hlive, List.filter_filter]
  · simp [hm, hlive]

/-- The pump of a feed that is remembered does for the filter what it does for the table. -/
theorem Owned.toFilter_handle (h : T.Owned) (hn : T.latest[a]? = some n) :
    (T.handle now n e).toFilter = T.toFilter.handle now a e := by
  obtain ⟨old, hold, haddress⟩ := Option.map_eq_some_iff.1 (h.newest a n hn).1
  have hfeed : T.toFilter.feeds[a]? =
      some ⟨old.pump, old.senders.filter fun id => T.holders.contains id⟩ := by
    rw [getElem?_feeds_toFilter, hn, Option.bind_some, shared?, hold, Option.map_some]
  have htold : T.told now n e = (old.pump.handle T.policy T.validator now e).told := by
    rw [told, hold, Option.bind_some]
  refine DeliveryFilter.ext_getElem? (fun b => ?_) (fun j => ?_) ?_
  · rw [DeliveryFilter.getElem?_feeds_handle, getElem?_feeds_toFilter, getElem?_feeds_toFilter,
      latest_handle]
    cases hm : T.latest[b]? with
    | none => rfl
    | some m =>
      have hsame : n = m ↔ b = a := by
        constructor
        · rintro rfl
          exact Option.some_inj.1 ((h.newest b n hm).1.symm.trans (h.newest a n hn).1)
        · rintro rfl
          exact (h.newest b n hn).unique (h.newest b m hm)
      simp only [Option.bind_some, shared?_handle, hsame]
      rfl
  · rw [DeliveryFilter.getElem?_subscriptions_handle, getElem?_subscriptions_toFilter,
      getElem?_subscriptions_toFilter, getElem?_holders_handle, hfeed, htold]
    simp only [policy_toFilter, validator_toFilter]
    cases (old.pump.handle T.policy T.validator now e).told with
    | none => rfl
    | some event =>
      cases hj : T.holders[j]? with
      | none => rfl
      | some held =>
        have hlive : T.holders.contains j = true := by
          rw [ExtTreeMap.contains_eq_isSome_getElem?, hj]
          rfl
        simp [List.count_filter hlive, senders, hold]
  · simp only [FeedTable.handle, DeliveryFilter.handle, hold, hfeed, policy_toFilter,
      validator_toFilter]
    cases (old.pump.handle T.policy T.validator now e).told <;> exact ⟨rfl, rfl, rfl, rfl⟩

/-! ## Runs -/

/-- What the filter does when an operation is done to the table. It does not see what becomes of
feeds that are not remembered. -/
def seenAs (T : FeedTable) : Operation → List DeliveryFilter.Operation
  | .subscribe a => [.subscribe a]
  | .unsubscribe id => [.unsubscribe id]
  | .next id => [.next id]
  | .meets now n e =>
    ((T.address? n).filter fun a => T.latest[a]? = some n).toList.map fun a => .meets now a e

theorem toFilter_after (h : T.Owned) :
    (T.after op).toFilter = T.toFilter.afterAll (T.seenAs op) := by
  cases op with
  | subscribe a => exact toFilter_subscribe h
  | unsubscribe id => exact toFilter_unsubscribe h
  | next id => exact toFilter_next
  | meets now n e =>
    by_cases hn : ∃ a, T.address? n = some a ∧ T.latest[a]? = some n
    · obtain ⟨a, haddress, hn⟩ := hn
      have hseen : T.seenAs (.meets now n e) = [.meets now a e] := by
        simp [seenAs, haddress, hn, Option.filter]
      rw [hseen]
      exact h.toFilter_handle hn
    · -- A feed that is not remembered has stopped.
      have hstopped : T.runs n = false := by
        rw [← Bool.not_eq_true]
        intro hruns
        obtain ⟨hheld, a, ha⟩ := h.running n hruns
        exact hn ⟨a, ha.1, h.remembered a n ha hheld⟩
      have hseen : T.seenAs (.meets now n e) = [] := by
        cases haddress : T.address? n with
        | none => simp [seenAs, haddress]
        | some a =>
          have hlatest : T.latest[a]? ≠ some n := fun hlatest => hn ⟨a, haddress, hlatest⟩
          simp [seenAs, haddress, hlatest, Option.filter]
      rw [hseen]
      exact congrArg toFilter (handle_of_stopped hstopped)

/-- After any operations the filter is what is kept of the table. -/
theorem toFilter_afterAll (h : T.Owned) (ops : List Operation) :
    (T.afterAll ops).toFilter = T.toFilter.afterAll (T.collect seenAs ops) := by
  induction ops generalizing T with
  | nil => rfl
  | cons op rest ih =>
    have hnext : (T.after op).Owned := h.after
    have hlater := ih hnext
    rw [toFilter_after h] at hlater
    rw [collect_cons, DeliveryFilter.afterAll, List.foldl_append]
    exact hlater

@[simp] theorem toFilter_empty (policy : RetryPolicy) (validator : AtomValidator) :
    (empty policy validator).toFilter = .empty policy validator := by
  refine DeliveryFilter.ext_getElem? (fun a => ?_) (fun j => ?_) ⟨rfl, rfl, rfl, rfl⟩
  · simp [empty, DeliveryFilter.empty]
  · simp [empty, DeliveryFilter.empty]

/-- Every operation of the filter is one on the table. -/
theorem exists_toFilter_after (h : T.Owned) (op : DeliveryFilter.Operation) :
    ∃ own, (T.after own).toFilter = T.toFilter.after op := by
  cases op with
  | subscribe a => exact ⟨.subscribe a, toFilter_subscribe h⟩
  | unsubscribe id => exact ⟨.unsubscribe id, toFilter_unsubscribe h⟩
  | next id => exact ⟨.next id, toFilter_next⟩
  | meets now a e =>
    cases hn : T.latest[a]? with
    | some n => exact ⟨.meets now n e, h.toFilter_handle hn⟩
    | none =>
      have hgone : T.handle now T.feeds.length e = T := by simp [handle]
      refine ⟨.meets now T.feeds.length e, ?_⟩
      simp [hgone, DeliveryFilter.handle, hn]

/-- Every run of the filter is what is kept of a run of the table. -/
theorem exists_toFilter_afterAll (h : T.Owned) (ops : List DeliveryFilter.Operation) :
    ∃ own, (T.afterAll own).toFilter = T.toFilter.afterAll ops := by
  induction ops generalizing T with
  | nil => exact ⟨[], rfl⟩
  | cons op rest ih =>
    obtain ⟨first, hfirst⟩ := exists_toFilter_after h op
    have hnext : (T.after first).Owned := h.after
    obtain ⟨later, hlater⟩ := ih hnext
    exact ⟨first :: later, by rw [DeliveryFilter.afterAll_cons, ← hfirst]; exact hlater⟩

/-! ## What the filter says of a feed -/

/-- The filter counts the subscriptions that hold the feed opened last for the address. -/
theorem Owned.subscriberCount_toFilter (h : T.Owned) (hn : T.Newest a n) :
    T.toFilter.subscriberCount a = T.strongCount n := by
  rw [DeliveryFilter.subscriberCount, getElem?_feeds_toFilter]
  cases hm : T.latest[a]? with
  | none =>
    have hheld : ¬T.Held n := by
      intro hheld
      have hlatest := h.remembered a n hn hheld
      rw [hm] at hlatest
      contradiction
    rw [strongCount_eq_zero_iff.2 hheld]
    rfl
  | some m =>
    obtain rfl := hn.unique (h.newest a m hm)
    obtain ⟨feed, hfeed⟩ := h.exists_shared? hm
    simp [hfeed, h.length_members hfeed]

/-- Of an address that never had a feed the filter counts no subscriptions. -/
theorem Owned.subscriberCount_toFilter_eq_zero (h : T.Owned) (hnone : ∀ n, T.address? n ≠ some a) :
    T.toFilter.subscriberCount a = 0 := by
  cases hm : T.latest[a]? with
  | none => simp [DeliveryFilter.subscriberCount, hm]
  | some m => exact absurd (h.newest a m hm).1 (hnone m)

end FeedTable

end ParticleLedger
