import ParticleLedger.Proofs.Feed.Exactness

/-!
# What the members of a feed have in common

A running feed remembers the names that it has delivered, and each of its members has a queue of
its own. An operation of the filter puts what is delivered into the memory and into every queue, or
takes the first atom out of one queue, or lets a member come with an empty queue, or go. So a
relation between queue and memory that these changes respect holds of every member at any time
(`Shares`).

Two such relations matter: that what waits is remembered (`Queue.Remembered`), and that what is
remembered was given away or waits (`Queue.Covered`). The second is lost when a member comes to a
feed whose other members have not yet given away what waits for them.

Main statements: `Shares.subscribe`, `Shares.unsubscribe`, `Shares.next` and `Shares.handle`.
-/

namespace ParticleLedger

open Std (ExtTreeMap ExtTreeSet)

theorem Feed.joinable_iff {feed : Feed} :
    feed.joinable ↔ feed.members ≠ [] ∧ feed.pump.running := by
  simp [joinable]

namespace DeliveryFilter

variable {f : DeliveryFilter} {a b : Address} {id j now : Nat} {e : TransportEvent}

/-! ## Members come and stay -/

theorem Member.subscribed : (f.subscribe a).Member a f.opened :=
  ⟨f.feedToJoin a, by rw [getElem?_feeds_subscribe, if_pos rfl], mem_members_feedToJoin⟩

theorem Member.subscribe_other (h : f.Member b j) (hb : b ≠ a) : (f.subscribe a).Member b j := by
  obtain ⟨feed, hfeed, hmem⟩ := h
  have hmembers : feed.members ≠ [] := List.ne_nil_of_mem hmem
  exact ⟨feed, by simp [getElem?_feeds_subscribe, hb, hfeed, hmembers], hmem⟩

theorem Member.unsubscribe_other (h : f.Member b j) (hid : id ≠ j) :
    (f.unsubscribe id).Member b j := by
  obtain ⟨feed, hfeed, hmem⟩ := h
  refine ⟨_, by rw [getElem?_feeds_unsubscribe, hfeed, Option.map_some], ?_⟩
  split
  · exact Feed.mem_members_leave hmem hid
  · exact hmem

theorem Member.next (h : f.Member b j) : (f.next id).1.Member b j := by
  rwa [Member, feeds_next]

theorem Member.handle (h : f.Member b j) : (f.handle now a e).Member b j := by
  obtain ⟨feed, hfeed, hmem⟩ := h
  refine ⟨_, by rw [getElem?_feeds_handle, hfeed, Option.map_some], ?_⟩
  split <;> exact hmem

/-- Who asks before he goes, goes all the same. -/
theorem unsubscribe_next : (f.next id).1.unsubscribe id = f.unsubscribe id := by
  cases hs : f.subscriptions[id]? with
  | none => simp [DeliveryFilter.next, hs]
  | some s =>
    have hgone : (f.subscriptions.insert id s.next.1).erase id = f.subscriptions.erase id := by
      apply ExtTreeMap.ext_getElem?
      intro j
      by_cases hj : id = j
      · simp [hj]
      · simp [ExtTreeMap.getElem?_erase, ExtTreeMap.getElem?_insert, hj]
    simp [unsubscribe, DeliveryFilter.next, hs, hgone]

/-! ## Relations between queue and memory -/

/-- Every member of the running feed of an address is told of no failure yet, and what waits for it
stands in the relation to what the feed remembers. -/
def Shares (f : DeliveryFilter) (a : Address)
    (R : List Atom → ExtTreeSet AtomId → Prop) : Prop :=
  ∀ feed, f.feeds[a]? = some feed → feed.pump.running → ∀ j ∈ feed.members,
    ∃ queue : List Atom, f.subscriptions[j]? = some ⟨a, queue.map .atom, false⟩ ∧
      R queue feed.pump.seen

namespace Shares

variable {R R' : List Atom → ExtTreeSet AtomId → Prop}

theorem mono (h : f.Shares a R) (himp : ∀ queue seen, R queue seen → R' queue seen) :
    f.Shares a R' := by
  intro feed hfeed hrunning j hj
  obtain ⟨queue, hsub, hR⟩ := h feed hfeed hrunning j hj
  exact ⟨queue, hsub, himp queue _ hR⟩

/-- A subscription comes with an empty queue, to a feed that remembers nothing or to one that
runs. -/
theorem subscribe (h : f.Shares a R) (hlinked : f.Linked) (hempty : R [] ∅)
    (hjoin : b = a → ∀ feed, f.feeds[a]? = some feed → feed.joinable → R [] feed.pump.seen) :
    (f.subscribe b).Shares a R := by
  intro feed hfeed hrunning j hj
  have hold : ∀ old, f.feeds[a]? = some old → old.pump.running → j ∈ old.members →
      ∃ queue : List Atom, (f.subscribe b).subscriptions[j]? = some ⟨a, queue.map .atom, false⟩ ∧
        R queue old.pump.seen := by
    intro old hget hruns hmem
    have hlt := hlinked.lt_of_member ⟨old, hget, hmem⟩
    rw [getElem?_subscriptions_subscribe, if_neg (by omega)]
    exact h old hget hruns j hmem
  have hnew : (f.subscribe a).subscriptions[f.opened]? = some ⟨a, [].map .atom, false⟩ := by
    rw [getElem?_subscriptions_subscribe, if_pos rfl]
    rfl
  rw [getElem?_feeds_subscribe] at hfeed
  by_cases hb : a = b
  · subst hb
    rw [if_pos rfl, Option.some_inj] at hfeed
    subst hfeed
    by_cases hjoinable : ∃ old, f.feeds[a]? = some old ∧ old.joinable
    · obtain ⟨old, hget, hjoins⟩ := hjoinable
      have hjoined : f.feedToJoin a = { old with members := old.members ++ [f.opened] } := by
        simp [feedToJoin, hget, hjoins]
      rw [hjoined] at hrunning hj ⊢
      rcases List.mem_append.1 hj with hmem | hmem
      · exact hold old hget hrunning hmem
      · rw [List.mem_singleton.1 hmem]
        exact ⟨[], hnew, hjoin rfl old hget hjoins⟩
    · have hopened : f.feedToJoin a = .opened f.opened := by
        apply feedToJoin_of_not_joinable
        intro old hget
        rw [← Bool.not_eq_true]
        exact fun hjoins => hjoinable ⟨old, hget, hjoins⟩
      rw [hopened] at hj ⊢
      rw [List.mem_singleton.1 hj]
      exact ⟨[], hnew, hempty⟩
  · rw [if_neg hb] at hfeed
    exact hold feed (Option.filter_eq_some_iff.1 hfeed).1 hrunning hj

theorem unsubscribe (h : f.Shares a R) (hlinked : f.Linked) : (f.unsubscribe id).Shares a R := by
  intro feed hfeed hrunning j hj
  have hstays := (@Linked.unsubscribe f id hlinked).address_of_member a j ⟨feed, hfeed, hj⟩
  rw [address?_unsubscribe] at hstays
  have hid : j ≠ id := by
    rintro rfl
    rw [if_pos rfl] at hstays
    contradiction
  rw [getElem?_feeds_unsubscribe] at hfeed
  obtain ⟨old, hget, rfl⟩ := Option.map_eq_some_iff.1 hfeed
  have hbefore : j ∈ old.members ∧ old.pump.running := by
    split at hj
    · next hleaves =>
      rw [if_pos hleaves] at hrunning
      have hmem : j ∈ old.members := (List.mem_filter.1 hj).1
      rw [Feed.pump_leave hmem hid.symm] at hrunning
      exact ⟨hmem, hrunning⟩
    · next hstays =>
      rw [if_neg hstays] at hrunning
      exact ⟨hj, hrunning⟩
  obtain ⟨queue, hsub, hR⟩ := h old hget hbefore.2 j hbefore.1
  refine ⟨queue, by rw [getElem?_subscriptions_unsubscribe, if_neg hid, hsub], ?_⟩
  split
  · rwa [Feed.seen_pump_leave]
  · exact hR

/-- Asking takes the first atom out of one queue and leaves the others. -/
theorem next (h : f.Shares a R) (hother : ∀ queue seen, R queue seen → R' queue seen)
    (hown : ∀ queue seen, f.subscriptions[id]? = some ⟨a, queue.map .atom, false⟩ →
      R queue seen → R' queue.tail seen) : (f.next id).1.Shares a R' := by
  intro feed hfeed hrunning j hj
  rw [feeds_next] at hfeed
  obtain ⟨queue, hsub, hR⟩ := h feed hfeed hrunning j hj
  rw [getElem?_subscriptions_next]
  by_cases hid : j = id
  · subst hid
    refine ⟨queue.tail, ?_, hown queue _ hsub hR⟩
    rw [if_pos rfl, hsub]
    cases queue <;> rfl
  · exact ⟨queue, by rw [if_neg hid, hsub], hother queue _ hR⟩

/-- What a feed delivers joins its memory and every queue. -/
theorem handle (h : f.Shares a R) (hlinked : f.Linked)
    (hdeliver : ∀ x queue seen, R queue seen → R (queue ++ [x]) (seen.insert x.id)) :
    (f.handle now b e).Shares a R := by
  intro feed hfeed hrunning j hj
  rw [getElem?_feeds_handle] at hfeed
  obtain ⟨old, hget, rfl⟩ := Option.map_eq_some_iff.1 hfeed
  rw [getElem?_subscriptions_handle]
  by_cases hb : a = b
  · subst hb
    rw [if_pos rfl] at hrunning hj ⊢
    have hcount : old.members.count j = 1 :=
      List.count_eq_one_of_mem (hlinked.nodup a old hget) hj
    have hdoes := old.pump.does_handle f.policy f.validator now e
    rw [hget]
    simp only at hrunning ⊢
    generalize old.pump.handle f.policy f.validator now e = out at *
    cases hdoes with
    | silent htold hseen hsame =>
      rw [htold, hseen]
      exact h old hget (hsame ▸ hrunning) j hj
    | @delivers x htold _ _ _ hseen hsame =>
      obtain ⟨queue, hsub, hR⟩ := h old hget (hsame ▸ hrunning) j hj
      rw [htold, hseen]
      refine ⟨queue ++ [x], ?_, hdeliver x queue _ hR⟩
      simp [hsub, hcount]
    | givesUp _ _ _ hstopped =>
      rw [hstopped] at hrunning
      contradiction
  · rw [if_neg hb] at hrunning hj ⊢
    obtain ⟨queue, hsub, hR⟩ := h old hget hrunning j hj
    refine ⟨queue, ?_, hR⟩
    rw [hsub]
    cases hother : f.feeds[b]? with
    | none => rfl
    | some other =>
      have hcount : other.members.count j = 0 :=
        hlinked.count_eq_zero hother (hlinked.address_of_member a j ⟨old, hget, hj⟩) (Ne.symm hb)
      cases htold : (other.pump.handle f.policy f.validator now e).told with
      | none => simp only [htold]
      | some event => simp [htold, hcount]

end Shares

/-- The atoms that wait in a subscription. -/
def waiting (f : DeliveryFilter) (j : Nat) : List Atom :=
  ((f.subscriptions[j]?.map (·.inbox)).getD []).filterMap FeedEvent.atom?

theorem waiting_eq {queue : List Atom} {finished : Bool}
    (h : f.subscriptions[j]? = some ⟨a, queue.map .atom, finished⟩) : f.waiting j = queue := by
  simp [waiting, h, List.filterMap_map, Function.comp_def]

end DeliveryFilter

/-! ## What waits and what is remembered -/

namespace Queue

variable {given queue rest : List Atom} {seen : ExtTreeSet AtomId} {x : Atom}

/-- What waits is remembered. -/
def Remembered (queue : List Atom) (seen : ExtTreeSet AtomId) : Prop :=
  ∀ x ∈ queue, x.id ∈ seen

/-- Of what is remembered a copy has been given away, or waits. -/
def Covered (given queue : List Atom) (seen : ExtTreeSet AtomId) : Prop :=
  ∀ id ∈ seen, ∃ x ∈ given ++ queue, x.id = id

theorem Remembered.deliver (h : Remembered queue seen) :
    Remembered (queue ++ [x]) (seen.insert x.id) := by
  intro y hy
  rw [ExtTreeSet.mem_insert, Std.compare_eq_iff_eq]
  rcases List.mem_append.1 hy with hy | hy
  · exact .inr (h y hy)
  · rw [List.mem_singleton.1 hy]
    exact .inl rfl

theorem Covered.deliver (h : Covered given queue seen) :
    Covered given (queue ++ [x]) (seen.insert x.id) := by
  intro id hid
  rw [ExtTreeSet.mem_insert, Std.compare_eq_iff_eq] at hid
  rcases hid with hid | hid
  · exact ⟨x, by simp, hid⟩
  · obtain ⟨y, hy, hyid⟩ := h id hid
    exact ⟨y, by rw [← List.append_assoc]; exact List.mem_append_left _ hy, hyid⟩

theorem Covered.mono (h : Covered given queue seen) (more : List Atom) :
    Covered (given ++ more) queue seen := by
  intro id hid
  obtain ⟨y, hy, hyid⟩ := h id hid
  refine ⟨y, ?_, hyid⟩
  rcases List.mem_append.1 hy with hy | hy
  · exact List.mem_append_left _ (List.mem_append_left _ hy)
  · exact List.mem_append_right _ hy

/-- The first atom that waits is given away. -/
theorem Covered.give (h : Covered given (x :: rest) seen) : Covered (given ++ [x]) rest seen := by
  intro id hid
  obtain ⟨y, hy, hyid⟩ := h id hid
  exact ⟨y, by simpa using hy, hyid⟩

end Queue

end ParticleLedger
