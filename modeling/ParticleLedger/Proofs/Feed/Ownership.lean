import ParticleLedger.Proofs.Feed.Table

/-!
# Who can hold, run and name what

A table of feeds keeps to a few rules (`Owned`), whatever subscriptions come and go and whatever
pumps meet. From them follows which feeds run, and that there is at most one of an address.

Main statements: `Owned.afterAll`, `runs_after` (when a feed runs) and `Owned.eq_of_runs` (no two
feeds of an address run).
-/

namespace ParticleLedger

namespace FeedTable

variable {T : FeedTable} {a b : Address} {id j m n now : Nat} {e : TransportEvent}
  {op : Operation} {event : FeedEvent}

/-! ## The rules -/

/-- The feed was opened last for the address. -/
def Newest (T : FeedTable) (a : Address) (n : Nat) : Prop :=
  T.address? n = some a ∧ ∀ m, T.address? m = some a → m ≤ n

theorem Newest.unique (hm : T.Newest a m) (hn : T.Newest a n) : m = n :=
  Nat.le_antisymm (hn.2 m hm.1) (hm.2 n hn.1)

/-- A feed that runs is held, and is the last that was opened for its address; such a feed is
remembered as long as it is held. Every subscription is attached to the feed that it holds, which is
one of its own address, and to no other. -/
structure Owned (T : FeedTable) : Prop where
  numbered : ∀ j p, T.place? j = some p → j < T.opened
  attached : ∀ j n a, T.place? j = some (n, a) → j ∈ T.senders n ∧ T.address? n = some a
  sent : ∀ j n, j ∈ T.senders n → j < T.opened ∧ ∀ m a, T.place? j = some (m, a) → m = n
  nodup : ∀ n, (T.senders n).Nodup
  newest : ∀ a n, T.latest[a]? = some n → T.Newest a n
  remembered : ∀ a n, T.Newest a n → T.Held n → T.latest[a]? = some n
  running : ∀ n, T.runs n → T.Held n ∧ ∃ a, T.Newest a n

namespace Owned

theorem empty (policy : RetryPolicy) (validator : AtomValidator) :
    (FeedTable.empty policy validator).Owned where
  numbered := by simp [place?, FeedTable.empty]
  attached := by simp [place?, FeedTable.empty]
  sent := by simp [senders, FeedTable.empty]
  nodup := by simp [senders, FeedTable.empty]
  newest := by simp [FeedTable.empty]
  remembered := by simp [Newest, address?, FeedTable.empty]
  running := by simp [runs, FeedTable.empty]

theorem held_subscribe (h : T.Owned) : (T.subscribe a).Held m ↔ m = T.feedFor a ∨ T.Held m := by
  constructor
  · rintro ⟨j, b, hj⟩
    rw [place?_subscribe] at hj
    split at hj
    · cases hj
      exact .inl rfl
    · exact .inr ⟨j, b, hj⟩
  · rintro (rfl | ⟨j, b, hj⟩)
    · exact ⟨T.opened, a, by rw [place?_subscribe, if_pos rfl]⟩
    · have hlt := h.numbered j _ hj
      exact ⟨j, b, by rw [place?_subscribe, if_neg (Nat.ne_of_lt hlt), hj]⟩

/-- A feed that is joined is one of the address. -/
theorem address?_feedFor (h : T.Owned) (hb : T.address? (T.feedFor a) = some b) : b = a := by
  obtain ⟨n, hjoined, hn, -⟩ | ⟨-, hn, -⟩ := T.subscribe_cases a
  · have haddress := (h.newest a n (joined?_eq_some_iff.1 hjoined).1).1
    rw [hn, haddress] at hb
    exact (Option.some_inj.1 hb).symm
  · rw [hn] at hb
    exact absurd (lt_of_address? hb) (Nat.lt_irrefl _)

theorem address?_subscribe (h : T.Owned) : (T.subscribe a).address? m =
    if m = T.feedFor a then some a else T.address? m := by
  obtain ⟨n, hjoined, hn, hjoin⟩ | ⟨-, hn, hstart⟩ := T.subscribe_cases a
  · have haddress := (h.newest a n (joined?_eq_some_iff.1 hjoined).1).1
    have hsame : (T.join a n).address? m = T.address? m := by
      unfold address?
      rw [getElem?_feeds_join, Option.map_map]
      congr 1
      funext feed
      by_cases hm : n = m <;> simp [hm]
    rw [hjoin, hn, hsame]
    split
    · next hm => rw [hm, haddress]
    · rfl
  · rw [hstart, hn, address?, getElem?_feeds_start]
    split <;> rfl

/-- The feed of a new subscription is the newest of its address. -/
theorem newest_feedFor (h : T.Owned) : (T.subscribe a).Newest a (T.feedFor a) := by
  refine ⟨by rw [h.address?_subscribe, if_pos rfl], fun m hm => ?_⟩
  rw [h.address?_subscribe] at hm
  split at hm
  · next hsame => exact Nat.le_of_eq hsame
  · obtain ⟨n, hjoined, hn, -⟩ | ⟨-, hn, -⟩ := T.subscribe_cases a
    · rw [hn]
      exact (h.newest a n (joined?_eq_some_iff.1 hjoined).1).2 m hm
    · rw [hn]
      exact Nat.le_of_lt (lt_of_address? hm)

/-- Other addresses are as they were. -/
theorem newest_subscribe_iff (h : T.Owned) (hb : b ≠ a) :
    (T.subscribe a).Newest b m ↔ T.Newest b m := by
  have haddress : ∀ k, (T.subscribe a).address? k = some b ↔ T.address? k = some b := by
    intro k
    rw [h.address?_subscribe]
    split
    · next hk =>
      rw [hk]
      constructor
      · intro hab
        exact absurd (Option.some_inj.1 hab).symm hb
      · intro hof
        exact absurd (h.address?_feedFor hof) hb
    · rfl
  simp only [Newest, haddress]

theorem subscribe (h : T.Owned) : (T.subscribe a).Owned := by
  constructor
  case numbered =>
    intro j p hj
    rw [place?_subscribe] at hj
    rw [opened_subscribe]
    split at hj
    · omega
    · exact Nat.lt_succ_of_lt (h.numbered j p hj)
  case attached =>
    intro j m b hj
    rw [place?_subscribe] at hj
    rw [senders_subscribe, h.address?_subscribe]
    split at hj
    · next hnew =>
      cases hj
      simp [hnew]
    · obtain ⟨hmem, hof⟩ := h.attached j m b hj
      split
      · next hm =>
        subst hm
        exact ⟨List.mem_append_left _ hmem, by rw [h.address?_feedFor hof]⟩
      · exact ⟨hmem, hof⟩
  case sent =>
    intro j m hj
    have hold : j ∈ T.senders m → j < T.opened + 1 ∧
        ∀ k b, (T.subscribe a).place? j = some (k, b) → k = m := by
      intro hmem
      obtain ⟨hlt, hof⟩ := h.sent j m hmem
      refine ⟨Nat.lt_succ_of_lt hlt, fun k b hk => hof k b ?_⟩
      rwa [place?_subscribe, if_neg (Nat.ne_of_lt hlt)] at hk
    rw [senders_subscribe] at hj
    rw [opened_subscribe]
    split at hj
    · next hm =>
      rcases List.mem_append.1 hj with hj | hj
      · exact hold hj
      · obtain rfl := List.mem_singleton.1 hj
        refine ⟨Nat.lt_succ_self _, fun k b hk => ?_⟩
        rw [place?_subscribe, if_pos rfl] at hk
        cases hk
        exact hm.symm
    · exact hold hj
  case nodup =>
    intro m
    rw [senders_subscribe]
    split
    · refine List.nodup_append.2 ⟨h.nodup m, by simp, ?_⟩
      intro i hi k hk
      rw [List.mem_singleton.1 hk]
      exact Nat.ne_of_lt (h.sent i m hi).1
    · exact h.nodup m
  case newest =>
    intro b m hm
    obtain ⟨hnamed, -⟩ := getElem?_latest_subscribe.1 hm
    split at hnamed
    · next hb =>
      subst hb
      obtain rfl := Option.some_inj.1 hnamed
      exact h.newest_feedFor
    · next hb => exact (h.newest_subscribe_iff hb).2 (h.newest b m hnamed)
  case remembered =>
    intro b m hm hheld
    refine getElem?_latest_subscribe.2 ⟨?_, hheld⟩
    split
    · next hb =>
      subst hb
      rw [hm.unique h.newest_feedFor]
    · next hb =>
      rw [h.newest_subscribe_iff hb] at hm
      have hother : m ≠ T.feedFor a := fun heq => hb (h.address?_feedFor (heq ▸ hm.1))
      exact h.remembered b m hm ((h.held_subscribe.1 hheld).resolve_left hother)
  case running =>
    intro m hm
    rw [runs_subscribe, Bool.or_eq_true, decide_eq_true_eq] at hm
    rcases hm with rfl | hm
    · exact ⟨h.held_subscribe.2 (.inl rfl), a, h.newest_feedFor⟩
    · obtain ⟨hheld, b, hb⟩ := h.running m hm
      refine ⟨h.held_subscribe.2 (.inr hheld), b, ?_⟩
      by_cases hba : b = a
      · -- What runs for the address is joined.
        subst hba
        have hjoined := joined?_eq_some_iff.2 ⟨h.remembered b m hb hheld, hheld, hm⟩
        have hm : T.feedFor b = m := by simp [feedFor, hjoined]
        exact hm ▸ h.newest_feedFor
      · exact (h.newest_subscribe_iff hba).2 hb

/-- An operation by which nobody comes leaves the rules as they are, if it strikes out only who is
gone and stops the pumps that nobody holds. -/
theorem of_kept (h : T.Owned) {T' : FeedTable} (hopened : T'.opened = T.opened)
    (hplace : ∀ j p, T'.place? j = some p → T.place? j = some p)
    (haddress : ∀ m, T'.address? m = T.address? m)
    (hsenders : ∀ m, (T'.senders m).Sublist (T.senders m))
    (hlisted : ∀ j m b, T'.place? j = some (m, b) → j ∈ T.senders m → j ∈ T'.senders m)
    (hlatest : T'.latest = T.latest) (hruns : ∀ m, T'.runs m → T.runs m ∧ T'.Held m) :
    T'.Owned where
  numbered j p hj := hopened ▸ h.numbered j p (hplace j p hj)
  attached j m b hj := by
    obtain ⟨hmem, hof⟩ := h.attached j m b (hplace j _ hj)
    exact ⟨hlisted j m b hj hmem, by rw [haddress, hof]⟩
  sent j m hj := by
    obtain ⟨hlt, hof⟩ := h.sent j m ((hsenders m).mem hj)
    exact ⟨hopened ▸ hlt, fun k b hk => hof k b (hplace j _ hk)⟩
  nodup m := (hsenders m).nodup (h.nodup m)
  newest b m hm := by
    rw [hlatest] at hm
    simpa only [Newest, haddress] using h.newest b m hm
  remembered b m hm hheld := by
    obtain ⟨j, c, hj⟩ := hheld
    simp only [Newest, haddress] at hm
    rw [hlatest]
    exact h.remembered b m hm ⟨j, c, hplace j _ hj⟩
  running m hm := by
    obtain ⟨hold, hheld⟩ := hruns m hm
    obtain ⟨-, b, hb⟩ := h.running m hold
    exact ⟨hheld, b, by simpa only [Newest, haddress] using hb⟩

theorem unsubscribe (h : T.Owned) : (T.unsubscribe id).Owned := by
  refine h.of_kept opened_unsubscribe (fun j p hj => ?_) (fun _ => address?_unsubscribe)
    (fun _ => by simp) (fun j m b _ hmem => ?_) latest_unsubscribe
    fun m hm => ?_
  · rw [place?_unsubscribe, place?_release] at hj
    split at hj
    · contradiction
    · exact hj
  · rwa [senders_unsubscribe]
  · obtain ⟨hold, hsole⟩ := runs_unsubscribe.1 hm
    exact ⟨hold, held_unsubscribe.2 (held_release.2 ⟨(h.running m hold).1, hsole⟩)⟩

theorem next (h : T.Owned) : (T.next id).1.Owned := by
  refine h.of_kept opened_next (fun j p hj => ?_) (fun _ => address?_next)
    (fun _ => by simp) (fun j m b _ hmem => ?_) latest_next fun m hm => ?_
  · rwa [place?_next] at hj
  · rwa [senders_next]
  · rw [runs_next] at hm
    exact ⟨hm, held_next.2 (h.running m hm).1⟩

theorem handle (h : T.Owned) : (T.handle now n e).Owned := by
  refine h.of_kept opened_handle (fun j p hj => ?_) (fun _ => address?_handle) (fun m => ?_)
    (fun j m b hj hmem => ?_) latest_handle fun m hm => ?_
  · rwa [place?_handle] at hj
  · rcases @senders_handle T m n now e with hsame | hlive
    · simp [hsame]
    · simp [hlive]
  · rcases @senders_handle T m n now e with hsame | hlive
    · rwa [hsame]
    · rw [place?_handle] at hj
      rw [hlive]
      exact List.mem_filter.2 ⟨hmem, contains_of_place? hj⟩
  · obtain ⟨hold, -⟩ := runs_handle.1 hm
    exact ⟨hold, held_handle.2 (h.running m hold).1⟩

theorem after (h : T.Owned) : (T.after op).Owned := by
  cases op with
  | subscribe a => exact h.subscribe
  | unsubscribe id => exact h.unsubscribe
  | next id => exact h.next
  | meets now n e => exact h.handle

theorem afterAll (h : T.Owned) (ops : List Operation) : (T.afterAll ops).Owned := by
  induction ops generalizing T with
  | nil => exact h
  | cons op rest ih => exact ih h.after

end Owned

/-! ## When a feed runs -/

/-- The operation stops the pump of the feed, if it runs: the only subscription that holds the feed
goes, or the feed gives up. -/
def Stops (T : FeedTable) (n : Nat) (op : Operation) : Prop :=
  (∃ id, op = .unsubscribe id ∧ T.holdersOf n = [id]) ∨
    ∃ now e, op = .meets now n e ∧ T.GivesUp now n e

theorem stops_meets : T.Stops n (.meets now m e) ↔ m = n ∧ T.GivesUp now m e := by
  constructor
  · rintro (⟨id, hop, -⟩ | ⟨now', e', hop, hup⟩)
    · cases hop
    · cases hop
      exact ⟨rfl, hup⟩
  · rintro ⟨rfl, hup⟩
    exact .inr ⟨now, e, rfl, hup⟩

/-- Only a feed that runs is joined. -/
theorem runs_of_feedFor (hn : n < T.feeds.length) (hfor : n = T.feedFor a) : T.runs n := by
  obtain ⟨m, hjoined, hm, -⟩ | ⟨-, hm, -⟩ := T.subscribe_cases a
  · rw [hfor, hm]
    exact (joined?_eq_some_iff.1 hjoined).2.2
  · omega

/-- A feed runs as long as nothing stops it, and never again. -/
theorem runs_after (hn : n < T.feeds.length) :
    (T.after op).runs n ↔ T.runs n ∧ ¬T.Stops n op := by
  cases op with
  | subscribe a =>
    simp only [after_subscribe, runs_subscribe, Bool.or_eq_true, decide_eq_true_eq, Stops]
    simpa using runs_of_feedFor hn
  | unsubscribe id =>
    simp only [after_unsubscribe, runs_unsubscribe, Stops]
    simp
  | next id =>
    simp only [after_next, runs_next, Stops]
    simp
  | meets now m e => rw [after_meets, runs_handle, stops_meets]

/-- Only a feed that runs says something. -/
theorem runs_of_told (h : T.told now n e = some event) : T.runs n := by
  obtain ⟨feed, hfeed, htold⟩ := Option.bind_eq_some_iff.1 h
  have hruns : feed.pump.running = true := by
    rw [← Bool.not_eq_false]
    intro hstopped
    simp [Pump.handle_of_stopped hstopped] at htold
  simp [runs, hfeed, hruns]

theorem runs_of_givesUp (h : T.GivesUp now n e) : T.runs n := by
  obtain ⟨attempts, last, htold⟩ := h
  exact runs_of_told htold

/-- No two feeds of an address run. -/
theorem Owned.eq_of_runs (h : T.Owned) (hm : T.runs m) (hn : T.runs n)
    (hma : T.address? m = some a) (hna : T.address? n = some a) : m = n := by
  obtain ⟨-, b, hb⟩ := h.running m hm
  obtain ⟨-, c, hc⟩ := h.running n hn
  obtain rfl : b = a := Option.some_inj.1 (hb.1.symm.trans hma)
  obtain rfl : c = b := Option.some_inj.1 (hc.1.symm.trans hna)
  exact hb.unique hc

/-! ## What an operation leaves -/

theorem length_feeds_after : T.feeds.length ≤ (T.after op).feeds.length := by
  cases op with
  | subscribe a =>
    obtain ⟨n, -, -, hjoin⟩ | ⟨-, -, hstart⟩ := T.subscribe_cases a
    · simp [hjoin, join, hold]
    · simp [hstart, start, hold]
  | unsubscribe id =>
    rw [after_unsubscribe, unsubscribe]
    cases T.holders[id]? with
    | none => exact Nat.le_refl _
    | some h =>
      simp only
      split <;> simp [release]
  | next id => simp
  | meets now n e =>
    rw [after_meets, FeedTable.handle]
    cases T.feeds[n]? with
    | none => exact Nat.le_refl _
    | some feed =>
      simp only
      cases (feed.pump.handle T.policy T.validator now e).told <;> simp [send]

/-- A feed keeps its address. -/
theorem Owned.address?_after (h : T.Owned) (hn : n < T.feeds.length) :
    (T.after op).address? n = T.address? n := by
  cases op with
  | subscribe a =>
    rw [after_subscribe, h.address?_subscribe]
    split
    · next hfor =>
      obtain ⟨b, hb⟩ : ∃ b, T.address? n = some b := by simp [address?, hn]
      rw [hb]
      rw [hfor] at hb
      rw [h.address?_feedFor hb]
    · rfl
  | unsubscribe id => exact address?_unsubscribe
  | next id => exact address?_next
  | meets now n e => exact address?_handle

end FeedTable

end ParticleLedger
