import ParticleLedger.Proofs.Atom.Plain
import ParticleLedger.Proofs.Feed.Correspondence
import ParticleLedger.Proofs.Feed.Subscriber

/-!
# The life of a feed

A feed is opened when a subscription comes and finds none of its address that is held and runs. From
then on each subscription of the address joins it, until it gives up or the last subscription that
holds it goes. A subscription that holds a feed which gives up is told so, once, behind all atoms
that the feed passed on; it may stay as long as it likes, and stands in nobody's way.

Main statements: `Replaced.le_feedFor` (what comes after a feed that gave up), `mem_memory_afterAll`
(what a feed remembers) and `lifetimes_exact`.
-/

namespace ParticleLedger

open Std (ExtTreeSet)
open FeedEvent (Transcript)

namespace FeedTable

variable {T : FeedTable} {a b : Address} {j m n now : Nat} {e : TransportEvent} {op : Operation}
  {events rest : List FeedEvent}

/-! ## What comes after a feed -/

/-- Of the feeds of the address none runs but those with a number from `count` on. -/
structure Replaced (T : FeedTable) (a : Address) (count : Nat) : Prop where
  opened : count ≤ T.feeds.length
  stopped : ∀ m, m < count → T.address? m = some a → T.runs m = false

namespace Replaced

variable {count : Nat}

/-- When a feed gives up, no feed of its address runs any more. -/
theorem of_givesUp (howned : T.Owned) (hup : T.GivesUp now n e) (hn : T.address? n = some a) :
    (T.handle now n e).Replaced a T.feeds.length where
  opened := @length_feeds_after T (.meets now n e)
  stopped m _ hm := by
    rw [address?_handle] at hm
    rw [← Bool.not_eq_true, runs_handle]
    rintro ⟨hruns, hgoes⟩
    exact hgoes ⟨howned.eq_of_runs (runs_of_givesUp hup) hruns hn hm, hup⟩

theorem after (h : T.Replaced a count) (howned : T.Owned) : (T.after op).Replaced a count where
  opened := Nat.le_trans h.opened length_feeds_after
  stopped m hm haddress := by
    have hlt : m < T.feeds.length := Nat.lt_of_lt_of_le hm h.opened
    rw [howned.address?_after hlt] at haddress
    rw [← Bool.not_eq_true, runs_after hlt, h.stopped m hm haddress]
    simp

theorem afterAll (h : T.Replaced a count) (howned : T.Owned) (ops : List Operation) :
    (T.afterAll ops).Replaced a count := by
  induction ops generalizing T with
  | nil => exact h
  | cons op rest ih => exact ih (h.after howned) howned.after

/-- So new subscriptions hold feeds that were opened later. -/
theorem le_feedFor (h : T.Replaced a count) (howned : T.Owned) : count ≤ T.feedFor a := by
  obtain ⟨n, hjoined, hn, -⟩ | ⟨-, hn, -⟩ := T.subscribe_cases a
  · obtain ⟨hlatest, -, hruns⟩ := joined?_eq_some_iff.1 hjoined
    rw [hn, ← Nat.not_lt]
    intro hlt
    rw [h.stopped n hlt (howned.newest a n hlatest).1] at hruns
    contradiction
  · rw [hn]
    exact h.opened

end Replaced

/-! ## What a feed remembers -/

/-- The names of the atoms that a feed has delivered. A feed that was not opened yet has delivered
none. -/
def memory (T : FeedTable) (n : Nat) : ExtTreeSet AtomId :=
  (T.feeds[n]?.map (·.pump.seen)).getD ∅

theorem memory_subscribe : (T.subscribe a).memory n = T.memory n := by
  unfold memory
  obtain ⟨m, -, -, hjoin⟩ | ⟨-, -, hstart⟩ := T.subscribe_cases a
  · rw [hjoin, getElem?_feeds_join, Option.map_map]
    congr 2
    funext feed
    by_cases hm : m = n <;> simp [hm]
  · rw [hstart, getElem?_feeds_start]
    split
    · next hn =>
      subst hn
      simp [OwnedFeed.opened, Pump.start]
    · rfl

theorem memory_unsubscribe : (T.unsubscribe j).memory n = T.memory n := by
  unfold memory
  rw [getElem?_feeds_unsubscribe, Option.map_map]
  congr 2
  funext feed
  by_cases hn : T.holdersOf n = [j] <;> simp [hn, Pump.stop]

/-- A feed remembers the names of what it says. -/
theorem mem_memory_handle {id : AtomId} : id ∈ (T.handle now m e).memory n ↔
    id ∈ T.memory n ∨ ∃ x, .atom x ∈ T.said n (.meets now m e) ∧ x.id = id := by
  unfold memory
  rw [getElem?_feeds_handle]
  by_cases hm : m = n
  · subst hm
    have hsaid : T.said m (.meets now m e) = (T.told now m e).toList := if_pos rfl
    rw [hsaid, told]
    cases T.feeds[m]? with
    | none => simp
    | some feed =>
      have hdoes := feed.pump.does_handle T.policy T.validator now e
      simp only [Option.map_some, Option.getD_some, Option.bind_some, if_true]
      cases hdoes with
      | silent htold hseen => simp [htold, hseen]
      | delivers htold _ _ _ hseen =>
        simp [htold, hseen, ExtTreeSet.mem_insert, or_comm]
      | givesUp htold hseen => simp [htold, hseen]
  · simp [said, hm]

theorem mem_memory_after {id : AtomId} : id ∈ (T.after op).memory n ↔
    id ∈ T.memory n ∨ ∃ x, .atom x ∈ T.said n op ∧ x.id = id := by
  cases op with
  | subscribe a => simp [memory_subscribe, said]
  | unsubscribe j => simp [memory_unsubscribe, said]
  | next j => simp [memory, said]
  | meets now m e => exact mem_memory_handle

/-- Nothing else is remembered by a feed than the names of the atoms that it said itself. -/
theorem mem_memory_afterAll {id : AtomId} {ops : List Operation} : id ∈ (T.afterAll ops).memory n ↔
    id ∈ T.memory n ∨ ∃ x, .atom x ∈ T.collect (said n) ops ∧ x.id = id := by
  induction ops generalizing T with
  | nil => simp
  | cons op rest ih =>
    rw [afterAll_cons, ih, mem_memory_after, collect_cons]
    simp only [List.mem_append, or_and_right, exists_or, or_assoc]

/-! ## Joining and opening -/

/-- A subscription to the address can join the feed: it is one of the address, some subscription
holds it, and it runs. -/
def Joinable (T : FeedTable) (a : Address) (n : Nat) : Prop :=
  T.address? n = some a ∧ 0 < T.strongCount n ∧ T.runs n

/-- The pumps of all feeds that there have been. -/
def pumps (T : FeedTable) : List Pump :=
  T.feeds.map (·.pump)

theorem Owned.joined?_eq_some (h : T.Owned) (hn : T.Joinable a n) : T.joined? a = some n := by
  obtain ⟨haddress, hcount, hruns⟩ := hn
  obtain ⟨hheld, b, hb⟩ := h.running n hruns
  obtain rfl : b = a := Option.some_inj.1 (hb.1.symm.trans haddress)
  exact joined?_eq_some_iff.2 ⟨h.remembered b n hb hheld, hheld, hruns⟩

theorem Owned.joinable_of_joined? (h : T.Owned) (hn : T.joined? a = some n) : T.Joinable a n := by
  obtain ⟨hlatest, hheld, hruns⟩ := joined?_eq_some_iff.1 hn
  exact ⟨(h.newest a n hlatest).1, strongCount_pos_iff.2 hheld, hruns⟩

/-- A subscription that joins a feed leaves all pumps alone. -/
theorem Owned.subscribe_of_joinable (h : T.Owned) (hn : T.Joinable a n) :
    (T.subscribe a).holders[T.opened]? = some ⟨n, .fresh a⟩ ∧ (T.subscribe a).pumps = T.pumps := by
  have hjoined := h.joined?_eq_some hn
  obtain ⟨m, hm, hfor, hjoin⟩ | ⟨hnone, -⟩ := T.subscribe_cases a
  · obtain rfl : n = m := Option.some_inj.1 (hjoined.symm.trans hm)
    rw [getElem?_holders_subscribe, if_pos rfl, hfor]
    refine ⟨rfl, ?_⟩
    apply List.ext_getElem?
    intro k
    rw [pumps, pumps, List.getElem?_map, List.getElem?_map, hjoin, getElem?_feeds_join,
      Option.map_map]
    congr 1
    funext feed
    by_cases hk : n = k <;> simp [hk]
  · rw [hnone] at hjoined
    contradiction

/-- A subscription that finds nothing to join opens a feed of its own, which remembers nothing. -/
theorem Owned.subscribe_of_not_joinable (h : T.Owned) (hnone : ∀ n, ¬T.Joinable a n) :
    (T.subscribe a).holders[T.opened]? = some ⟨T.feeds.length, .fresh a⟩ ∧
      (T.subscribe a).feeds = T.feeds ++ [⟨a, .start, [T.opened]⟩] := by
  obtain ⟨n, hjoined, -⟩ | ⟨-, hfor, hstart⟩ := T.subscribe_cases a
  · exact absurd (h.joinable_of_joined? hjoined) (hnone n)
  · rw [getElem?_holders_subscribe, if_pos rfl, hfor, hstart]
    exact ⟨rfl, rfl⟩

/-! ## Whole lives -/

/-- What has been handed out tells which event comes next. -/
theorem Serves.getElem?_length (h : T.Serves a j n events rest)
    {given : List (Except FeedError Atom)}
    (hgiven : events.map FeedEvent.item = given ++ rest.map FeedEvent.item) :
    events[given.length]? = rest.head? := by
  obtain ⟨before, rfl⟩ := h.waits
  have hlength : before.length = given.length := by
    have hlengths := congrArg List.length hgiven
    simp only [List.length_map, List.length_append] at hlengths
    omega
  rw [← hlength, List.getElem?_append_right (Nat.le_refl _), Nat.sub_self, List.head?_eq_getElem?]

/-- The life of feeds. In every run of subscriptions that come, ask and go and of pumps that meet
whatever they meet:

The filter is what is kept of the table. No two feeds of an address run. A subscription joins the
feed of its address that somebody holds and that runs, and touches no pump by it; if there is none
it opens one, whose pump has yet to start and remembers nothing. A feed runs until the last
subscription that holds it goes or it gives up, and never again. The filter counts the subscriptions
that hold the feed opened last for an address.

A subscription is handed what its feed says after it came, in that order, all of it if it asks often
enough: atoms, and that the feed gave up once if it did, as the last thing. Having been handed all,
it is told to wait as long as the feed runs, and that there is nothing more afterwards.

Whoever subscribes to an address after a feed of it gave up holds a feed that was opened later. What
a feed remembers are the names of the atoms that it said itself, so that one has nothing from the
feed before it. -/
theorem lifetimes_exact (policy : RetryPolicy) (validator : AtomValidator)
    (ops : List Operation) :
    let T := (empty policy validator).afterAll ops
    let f := (DeliveryFilter.empty policy validator).afterAll
      ((empty policy validator).collect seenAs ops)
    f = T.toFilter ∧
    (∀ a m n, T.address? m = some a → T.address? n = some a → T.runs m → T.runs n → m = n) ∧
    (∀ a n, T.Joinable a n → (T.subscribe a).holders[T.opened]? = some ⟨n, .fresh a⟩ ∧
      (T.subscribe a).pumps = T.pumps) ∧
    (∀ a, (∀ n, ¬T.Joinable a n) →
      (T.subscribe a).holders[T.opened]? = some ⟨T.feeds.length, .fresh a⟩ ∧
      (T.subscribe a).feeds = T.feeds ++ [⟨a, .start, [T.opened]⟩]) ∧
    (∀ n op, n < T.feeds.length → ((T.after op).runs n ↔ T.runs n ∧ ¬T.Stops n op)) ∧
    (∀ a, (∀ n, T.Newest a n → f.subscriberCount a = T.strongCount n) ∧
      ((∀ n, T.address? n ≠ some a) → f.subscriberCount a = 0)) ∧
    (∀ first a later, ops = first ++ .subscribe a :: later →
      let before := (empty policy validator).afterAll first
      let j := before.opened
      let U := before.subscribe a
      .unsubscribe j ∉ later →
      ∃ n, U.holders[j]? = some ⟨n, .fresh a⟩ ∧
        let events := U.collect (said n) later
        let given := U.collect (handed j) later
        Transcript (T.runs n) events ∧
        given <+: events.map FeedEvent.item ∧
        (f.next j).2 = (match events[given.length]? with
          | some event => .ready event.item
          | none => if T.runs n then .pending else .ended) ∧
        ∀ k, events.length ≤ k → U.collect (handed j) (later ++ List.replicate k (.next j)) =
          events.map FeedEvent.item) ∧
    (∀ now n e a, T.GivesUp now n e → T.address? n = some a → ∀ later h,
      let after := (T.handle now n e).afterAll later
      (after.subscribe a).holders[after.opened]? = some h → T.feeds.length ≤ h.feed) ∧
    (∀ n id, id ∈ T.memory n ↔
      ∃ x, .atom x ∈ (empty policy validator).collect (said n) ops ∧ x.id = id) := by
  intro T f
  have hempty : (empty policy validator).Owned := .empty policy validator
  have howned : T.Owned := hempty.afterAll ops
  have hfilter : f = T.toFilter := by
    rw [toFilter_afterAll hempty ops, toFilter_empty]
  refine ⟨hfilter, fun a m n hma hna hm hn => howned.eq_of_runs hm hn hma hna,
    fun a n => howned.subscribe_of_joinable, fun a => howned.subscribe_of_not_joinable,
    fun n op => runs_after, fun a => ?_, ?_, ?_, fun n id => ?_⟩
  · rw [hfilter]
    exact ⟨fun n => howned.subscriberCount_toFilter, howned.subscriberCount_toFilter_eq_zero⟩
  · intro first a later hops before j U hheld
    have hbefore : before.Owned := hempty.afterAll first
    have hT : T = U.afterAll later := by
      change (empty policy validator).afterAll ops = _
      rw [hops, afterAll_append, afterAll_cons, after_subscribe]
    obtain ⟨rest, hserves, hgiven⟩ :=
      (Serves.subscribe before a).afterAll hbefore.subscribe hheld
    rw [List.nil_append, ← hT] at hserves
    rw [List.nil_append] at hgiven
    refine ⟨before.feedFor a, by rw [getElem?_holders_subscribe, if_pos rfl], hserves.transcript,
      ⟨_, hgiven.symm⟩, ?_, fun k hk => ?_⟩
    · rw [hfilter, next_toFilter, hserves.next_eq, hserves.getElem?_length hgiven]
      cases rest <;> rfl
    · have hrest : rest.length ≤ k := Nat.le_trans hserves.waits.length_le hk
      rw [collect_append, ← hT, hserves.collect_handed_next hrest, hgiven]
  · intro now n e a hup hn later h after hheld
    have hreplaced := (Replaced.of_givesUp howned hup hn).afterAll howned.handle later
    have hafter : after.Owned := howned.handle.afterAll later
    rw [getElem?_holders_subscribe, if_pos rfl] at hheld
    cases hheld
    exact hreplaced.le_feedFor hafter
  · rw [mem_memory_afterAll]
    simp [memory, empty]

end FeedTable

namespace Sample

open FeedTable (Operation)

/-- The feed of the account delivers an atom and gives up. Its subscription stays; two others come,
and the first of them goes. The one that stayed asks once. -/
def outlived : List Operation :=
  [.subscribe address, .meets 0 0 (.connected 0), .meets 0 0 (.arrived signedSpend),
    .meets 0 0 .ended, .subscribe address, .subscribe address, .unsubscribe 1, .next 0]

end Sample

/-- Beside a feed that gave up, and is still held, a second one of its address runs. It is the one
that is counted and joined; who held the first is told that it gave up. -/
theorem FeedTable.lifetimes_exact_outlived :
    let validator := signatureValidator Sample.trusting
    let T := (FeedTable.empty ⟨1, 60⟩ validator).afterAll Sample.outlived
    let f := (DeliveryFilter.empty ⟨1, 60⟩ validator).afterAll
      ((FeedTable.empty ⟨1, 60⟩ validator).collect FeedTable.seenAs Sample.outlived)
    T.runs 0 = false ∧ T.holdersOf 0 = [0] ∧ T.runs 1 = true ∧ T.holdersOf 1 = [2] ∧
    f.subscriberCount Sample.address = 1 ∧
    (T.subscribe Sample.address).holders[3]? = some ⟨1, .fresh Sample.address⟩ ∧
    (f.next 0).2 = .ready (.error (.retriesExhausted 1 "stream ended")) := by
  intro validator T f
  have hruns : T.runs 0 = false ∧ T.holdersOf 0 = [0] ∧ T.runs 1 = true ∧ T.holdersOf 1 = [2] := by
    decide +kernel
  have htable : T.feeds.length = 2 ∧ T.opened = 3 ∧ T.address? 1 = some Sample.address := by
    decide +kernel
  have hnewest : T.Newest Sample.address 1 := by
    refine ⟨htable.2.2, fun m hm => ?_⟩
    have hlt := FeedTable.lt_of_address? hm
    rw [htable.1] at hlt
    exact Nat.le_of_lt_succ hlt
  have hone : T.strongCount 1 = 1 := by
    rw [FeedTable.strongCount, hruns.2.2.2, List.length_singleton]
  have hjoinable : T.Joinable Sample.address 1 :=
    ⟨htable.2.2, by rw [hone]; exact Nat.one_pos, hruns.2.2.1⟩
  -- What the feed said to the subscription that stayed, and how much of it that was handed.
  let U := (FeedTable.empty ⟨1, 60⟩ validator).subscribe Sample.address
  have hfeed : U.holders[0]?.map (·.feed) = some 0 := by decide +kernel
  have hevents : U.collect (FeedTable.said 0) Sample.outlived.tail =
      [.atom Sample.signedSpend, .exhausted 1 "stream ended"] := by decide +kernel
  have hgiven : (U.collect (FeedTable.handed 0) Sample.outlived.tail).length = 1 := by
    decide +kernel
  obtain ⟨-, -, hjoins, -, -, hcount, hhanded, -⟩ :=
    FeedTable.lifetimes_exact ⟨1, 60⟩ validator Sample.outlived
  have hheld : Operation.unsubscribe 0 ∉ Sample.outlived.tail := by simp [Sample.outlived]
  obtain ⟨n, hn, -, -, hnext, -⟩ := hhanded [] Sample.address Sample.outlived.tail rfl hheld
  refine ⟨hruns.1, hruns.2.1, hruns.2.2.1, hruns.2.2.2, ?_, ?_, ?_⟩
  · exact ((hcount Sample.address).1 1 hnewest).trans hone
  · rw [← htable.2.1]
    exact (hjoins Sample.address 1 hjoinable).1
  · have hzero : n = 0 := by
      change U.holders[0]? = _ at hn
      rw [hn] at hfeed
      exact Option.some_inj.1 hfeed
    subst hzero
    change (f.next 0).2 = match (U.collect (FeedTable.said 0) Sample.outlived.tail)[
      (U.collect (FeedTable.handed 0) Sample.outlived.tail).length]? with
      | some event => .ready event.item
      | none => _ at hnext
    rw [hevents, hgiven] at hnext
    exact hnext

end ParticleLedger
