import ParticleLedger.Feed.Filter

/-!
# What feeds deliver

A pump does one of three things with what happens to it: it says nothing, it passes on an atom that
is new and valid, or it gives up. `Pump.Does` says once, and completely, what becomes of the pump in
each case, and a second family of lemmas says what each operation of a filter does to each
subscription and each feed. Later proofs cite these and never open the definitions.

Main statements: `signatureValidator_eq_ok_iff` (what validation asks for), `Pump.does_handle` and
`DeliveryFilter.getElem?_subscriptions_handle`.
-/

namespace ParticleLedger

open Std (ExtTreeMap ExtTreeSet)

/-! ## What validation asks for -/

/-- The atom has a timestamp, and every owner of every coin that it spends has signed its name. -/
def Atom.Authorised (scheme : SignatureScheme) (a : Atom) : Prop :=
  a.timestamp ≠ 0 ∧ ∀ c ∈ a.consumers, ∀ owner ∈ c.owners,
    ∃ s, a.signatures[owner]? = some s ∧ scheme.verifyId owner a.id s

section Validation

variable {scheme : SignatureScheme} {a : Atom}

theorem Atom.ownerFault?_eq_none_iff {owner : PublicKey} :
    a.ownerFault? scheme owner = none ↔
      ∃ s, a.signatures[owner]? = some s ∧ scheme.verifyId owner a.id s := by
  unfold ownerFault?
  cases a.signatures[owner]? <;> simp

theorem Atom.authorizationFault?_eq_none_iff :
    a.authorizationFault? scheme = none ↔ ∀ c ∈ a.consumers, ∀ owner ∈ c.owners,
      ∃ s, a.signatures[owner]? = some s ∧ scheme.verifyId owner a.id s := by
  simp only [authorizationFault?, List.findSome?_eq_none_iff, List.mem_flatMap,
    ExtTreeSet.mem_toList, ownerFault?_eq_none_iff]
  constructor
  · intro h c hc owner howner
    exact h owner ⟨c, hc, howner⟩
  · rintro h owner ⟨c, hc, howner⟩
    exact h c hc owner howner

theorem Atom.verifySignatures_eq_ok_iff :
    a.verifySignatures scheme = .ok () ↔ a.authorizationFault? scheme = none := by
  unfold verifySignatures
  cases a.authorizationFault? scheme <;> simp

/-- Validation lets exactly the authorised atoms through. -/
theorem signatureValidator_eq_ok_iff :
    signatureValidator scheme a = .ok () ↔ a.Authorised scheme := by
  rw [Atom.Authorised, ← Atom.authorizationFault?_eq_none_iff, ← Atom.verifySignatures_eq_ok_iff,
    signatureValidator]
  by_cases htime : a.timestamp = 0 <;> simp [htime]

end Validation

/-! ## What a pump does -/

namespace Pump

variable {validator : AtomValidator} {p : Pump} {e : TransportEvent}

/-- The atom that reaches the pump: one that arrives while the pump reads a connection. -/
def heard? (p : Pump) (e : TransportEvent) : Option Atom :=
  match p.phase, e with
  | .streaming _, .arrived x => some x
  | _, _ => none

/-- All that a pump can do when something happens to it. -/
inductive Does (validator : AtomValidator) (p : Pump) (e : TransportEvent) : Handled → Prop
  | silent {h : Handled} (htold : h.told = none) (hseen : h.pump.seen = p.seen)
      (hrunning : h.pump.running = p.running)
      (hdropped : ∀ x, p.heard? e = some x → x.id ∈ p.seen ∨ validator x ≠ .ok ()) :
      Does validator p e h
  | delivers {h : Handled} {x : Atom} (htold : h.told = some (.atom x)) (hheard : p.heard? e = some x)
      (hnew : x.id ∉ p.seen) (hvalid : validator x = .ok ())
      (hseen : h.pump.seen = p.seen.insert x.id) (hrunning : h.pump.running = p.running) :
      Does validator p e h
  | givesUp {h : Handled} {attempts : UInt32} {last : String}
      (htold : h.told = some (.exhausted attempts last)) (hseen : h.pump.seen = p.seen)
      (hrunning : p.running) (hstopped : h.pump.running = false) (hheard : p.heard? e = none) :
      Does validator p e h

/-- A pump that has stopped hears nothing. -/
theorem heard?_of_stopped (h : p.running = false) : p.heard? e = none := by
  obtain ⟨phase, failures, seen⟩ := p
  cases phase with
  | stopped => rfl
  | _ => simp [running] at h

/-- A pump that has stopped does nothing. -/
theorem handle_of_stopped (h : p.running = false) (policy : RetryPolicy)
    (validator : AtomValidator) (now : Nat) (e : TransportEvent) :
    p.handle policy validator now e = ⟨p, none, none⟩ := by
  obtain ⟨phase, failures, seen⟩ := p
  cases phase with
  | stopped => rfl
  | _ => simp [running] at h

/-- A pump stops only once. -/
theorem stop_of_stopped (h : p.running = false) : p.stop = p := by
  obtain ⟨phase, failures, seen⟩ := p
  cases phase with
  | stopped => rfl
  | _ => simp [running] at h

/-- Taking an atom delivers it if it is new and valid, and drops it otherwise. -/
theorem does_take {x : Atom} (hheard : p.heard? e = some x) :
    Does validator p e (p.take validator x) := by
  by_cases hknown : x.id ∈ p.seen
  · have hverdict : Pump.verdict validator { p with failures := 0 } x = .duplicate := by
      simp [verdict, hknown]
    rw [take, hverdict]
    refine .silent rfl rfl rfl fun y hy => ?_
    obtain rfl := Option.some_inj.1 (hheard.symm.trans hy)
    exact .inl hknown
  · cases hvalid : validator x with
    | ok =>
      have hverdict : Pump.verdict validator { p with failures := 0 } x = .delivered := by
        simp [verdict, hknown, hvalid]
      rw [take, hverdict]
      exact .delivers rfl hheard hknown hvalid rfl rfl
    | error cause =>
      have hverdict : Pump.verdict validator { p with failures := 0 } x = .rejected := by
        simp [verdict, hknown, hvalid]
      rw [take, hverdict]
      refine .silent rfl rfl rfl fun y hy => .inr ?_
      obtain rfl := Option.some_inj.1 (hheard.symm.trans hy)
      simp [hvalid]

/-- A lost connection makes a running pump wait, or give up. -/
theorem does_disconnect {policy : RetryPolicy} {now : Nat} {last : String} (hrunning : p.running)
    (hheard : p.heard? e = none) : Does validator p e (p.disconnect policy now last) := by
  unfold disconnect
  by_cases hretry : policy.shouldRetry (p.failures + 1)
  · rw [if_pos hretry]
    refine .silent rfl rfl ?_ (by simp [hheard])
    simpa [running] using hrunning
  · rw [if_neg hretry]
    exact .givesUp rfl rfl hrunning rfl hheard

/-- Whatever happens, a pump does one of the three things. -/
theorem does_handle (policy : RetryPolicy) (validator : AtomValidator) (now : Nat) (p : Pump)
    (e : TransportEvent) : p.Does validator e (p.handle policy validator now e) := by
  obtain ⟨phase, failures, seen⟩ := p
  have hidle : ∀ h : Handled, h.told = none → h.pump.seen = seen →
      h.pump.running = Pump.running ⟨phase, failures, seen⟩ →
      Pump.heard? ⟨phase, failures, seen⟩ e = none → Does validator ⟨phase, failures, seen⟩ e h :=
    fun h htold hseen hrunning hheard => .silent htold hseen hrunning (by simp [hheard])
  cases phase with
  | stopped => exact hidle _ rfl rfl rfl rfl
  | connecting =>
    cases e with
    | connected line => exact hidle _ rfl rfl rfl rfl
    | refused cause => exact does_disconnect rfl rfl
    | _ => exact hidle _ rfl rfl rfl rfl
  | streaming line =>
    cases e with
    | arrived x => exact does_take rfl
    | failed cause => exact does_disconnect rfl rfl
    | ended => exact does_disconnect rfl rfl
    | _ => exact hidle _ rfl rfl rfl rfl
  | waiting due =>
    cases e with
    | elapsed =>
      simp only [handle]
      split
      · exact hidle _ rfl rfl rfl rfl
      · exact hidle _ rfl rfl rfl rfl
    | _ => exact hidle _ rfl rfl rfl rfl

end Pump

/-! ## Subscriptions -/

namespace Subscription

variable {s : Subscription} {x : Atom}

/-- The next atom of a subscription is the first event in its inbox. -/
theorem next_eq_ok_iff : s.next.2 = .ready (.ok x) ↔
    s.finished = false ∧ ∃ rest, s.inbox = .atom x :: rest := by
  obtain ⟨a, inbox, finished⟩ := s
  unfold next
  cases finished with
  | true => simp
  | false =>
    cases inbox with
    | nil => simp
    | cons event rest => cases event <;> simp

/-- An atom that is given away leaves those behind it. -/
theorem inbox_next {rest : List FeedEvent} (hlive : s.finished = false)
    (hinbox : s.inbox = .atom x :: rest) : s.next.1.inbox = rest := by
  simp [next, hlive, hinbox]

@[simp] theorem address_next : s.next.1.address = s.address := by
  unfold next
  split
  · rfl
  · split <;> rfl

/-- What waits after asking waited before. -/
theorem mem_inbox_of_next {event : FeedEvent} (h : event ∈ s.next.1.inbox) : event ∈ s.inbox := by
  obtain ⟨a, inbox, finished⟩ := s
  unfold next at h
  cases finished with
  | true => exact h
  | false =>
    cases inbox with
    | nil => exact h
    | cons first rest => cases first <;> exact List.mem_cons_of_mem _ h

end Subscription

namespace DeliveryFilter

variable {f : DeliveryFilter} {a b : Address} {id j now : Nat} {e : TransportEvent}

theorem getElem?_subscriptions_subscribe : (f.subscribe a).subscriptions[j]? =
    if j = f.opened then some (.fresh a) else f.subscriptions[j]? := by
  simp only [subscribe, ExtTreeMap.getElem?_insert, Nat.compare_eq_eq, @eq_comm Nat f.opened]

theorem getElem?_subscriptions_unsubscribe : (f.unsubscribe id).subscriptions[j]? =
    if j = id then none else f.subscriptions[j]? := by
  unfold unsubscribe
  by_cases hj : j = id
  · subst hj
    cases hs : f.subscriptions[j]? with
    | none => simpa using hs
    | some s => simp
  · cases f.subscriptions[id]? with
    | none => simp [hj]
    | some s => simp [ExtTreeMap.getElem?_erase, hj, Ne.symm hj]

theorem getElem?_subscriptions_next : (f.next id).1.subscriptions[j]? =
    if j = id then f.subscriptions[j]?.map (·.next.1) else f.subscriptions[j]? := by
  unfold next
  by_cases hj : j = id
  · subst hj
    cases hs : f.subscriptions[j]? with
    | none => simpa using hs
    | some s => simp
  · cases f.subscriptions[id]? with
    | none => simp [hj]
    | some s => simp [ExtTreeMap.getElem?_insert, hj, Ne.symm hj]

/-- What a subscription gives away was the first event in its inbox. -/
theorem next_eq_ok {x : Atom} (h : (f.next id).2 = .ready (.ok x)) :
    ∃ s rest, f.subscriptions[id]? = some s ∧ s.finished = false ∧ s.inbox = .atom x :: rest := by
  unfold next at h
  cases hs : f.subscriptions[id]? with
  | none => simp [hs] at h
  | some s =>
    simp only [hs] at h
    obtain ⟨hlive, rest, hinbox⟩ := Subscription.next_eq_ok_iff.1 h
    exact ⟨s, rest, rfl, hlive, hinbox⟩

/-- A subscription is told as often as it is listed. -/
theorem getElem?_subscriptions_tell (members : List Nat) (event : FeedEvent) :
    (f.tell members event).subscriptions[j]? = f.subscriptions[j]?.map fun s =>
      { s with inbox := s.inbox ++ List.replicate (members.count j) event } := by
  simp only [tell]
  induction members generalizing f with
  | nil => simp
  | cons id rest ih =>
    have hfirst : (f.subscriptions.modify id (·.receive event))[j]? =
        f.subscriptions[j]?.map fun s => if id = j then s.receive event else s := by
      simp only [ExtTreeMap.getElem?_modify, Nat.compare_eq_eq]
      by_cases hid : id = j <;> simp [hid]
    have hrest := @ih { f with subscriptions := f.subscriptions.modify id (·.receive event) }
    rw [List.foldl_cons, hrest, hfirst, Option.map_map]
    congr 1
    funext s
    by_cases hid : id = j
    · simp [hid, Subscription.receive, List.replicate_succ]
    · simp [hid]

/-- What a pump says reaches the members of its feed. -/
theorem getElem?_subscriptions_handle : (f.handle now a e).subscriptions[j]? =
    match f.feeds[a]? with
    | none => f.subscriptions[j]?
    | some feed =>
      match (feed.pump.handle f.policy f.validator now e).told with
      | none => f.subscriptions[j]?
      | some event => f.subscriptions[j]?.map fun s =>
          { s with inbox := s.inbox ++ List.replicate (feed.members.count j) event } := by
  unfold handle
  cases f.feeds[a]? with
  | none => rfl
  | some feed =>
    simp only
    cases (feed.pump.handle f.policy f.validator now e).told with
    | none => rfl
    | some event => exact getElem?_subscriptions_tell _ _

/-! ## Feeds -/

/-- The feed that a new subscription gets has it as a member. -/
theorem mem_members_feedToJoin : f.opened ∈ (f.feedToJoin a).members := by
  unfold feedToJoin
  cases f.feeds[a]? with
  | none => simp [Feed.opened]
  | some feed =>
    simp only
    split
    · simp
    · simp [Feed.opened]

/-- The other members of the feed that a new subscription gets were members of it before. -/
theorem mem_feeds_of_mem_feedToJoin (hj : j ∈ (f.feedToJoin a).members) :
    j = f.opened ∨ ∃ feed, f.feeds[a]? = some feed ∧ j ∈ feed.members := by
  unfold feedToJoin at hj
  cases hfeed : f.feeds[a]? with
  | none => simp_all [Feed.opened]
  | some feed =>
    simp only [hfeed] at hj
    split at hj
    · rcases List.mem_append.1 hj with hj | hj
      · exact .inr ⟨feed, rfl, hj⟩
      · exact .inl (List.mem_singleton.1 hj)
    · exact .inl (by simpa [Feed.opened] using hj)

theorem feedToJoin_of_not_joinable (h : ∀ feed, f.feeds[a]? = some feed → feed.joinable = false) :
    f.feedToJoin a = .opened f.opened := by
  unfold feedToJoin
  cases hfeed : f.feeds[a]? with
  | none => rfl
  | some feed => simp [h feed hfeed]

theorem getElem?_feeds_subscribe : (f.subscribe a).feeds[b]? =
    if b = a then some (f.feedToJoin a)
    else f.feeds[b]?.filter fun feed => !feed.members.isEmpty := by
  have hmembers : (f.feedToJoin a).members ≠ [] := List.ne_nil_of_mem mem_members_feedToJoin
  simp only [subscribe, ExtTreeMap.getElem?_filter, Option.pfilter_eq_filter,
    ExtTreeMap.getElem?_insert, Std.compare_eq_iff_eq]
  by_cases hb : b = a
  · simp [hb, hmembers]
  · simp [hb, Ne.symm hb]

theorem getElem?_feeds_unsubscribe : (f.unsubscribe id).feeds[b]? =
    f.feeds[b]?.map fun feed =>
      if f.subscriptions[id]?.any (·.address = b) then feed.leave id else feed := by
  unfold unsubscribe
  cases f.subscriptions[id]? with
  | none => simp
  | some s =>
    simp only [ExtTreeMap.getElem?_modify, Std.compare_eq_iff_eq]
    by_cases hb : s.address = b <;> simp [hb]

@[simp] theorem feeds_next : (f.next id).1.feeds = f.feeds := by
  unfold next
  cases f.subscriptions[id]? <;> rfl

theorem getElem?_feeds_handle : (f.handle now a e).feeds[b]? =
    f.feeds[b]?.map fun feed =>
      if b = a then { feed with pump := (feed.pump.handle f.policy f.validator now e).pump }
      else feed := by
  unfold handle
  cases hfeed : f.feeds[a]? with
  | none =>
    by_cases hb : b = a
    · simp [hb, hfeed]
    · simp [hb]
  | some feed =>
    have hfeeds : (f.feeds.insert a
        { feed with pump := (feed.pump.handle f.policy f.validator now e).pump })[b]? =
        f.feeds[b]?.map fun feed =>
          if b = a then { feed with pump := (feed.pump.handle f.policy f.validator now e).pump }
          else feed := by
      simp only [ExtTreeMap.getElem?_insert, Std.compare_eq_iff_eq]
      by_cases hb : b = a
      · simp [hb, hfeed]
      · simp [hb, Ne.symm hb]
    simp only
    cases (feed.pump.handle f.policy f.validator now e).told <;> exact hfeeds

/-! ## Members -/

/-- The subscription shares the feed of the address. -/
def Member (f : DeliveryFilter) (b : Address) (j : Nat) : Prop :=
  ∃ feed, f.feeds[b]? = some feed ∧ j ∈ feed.members

theorem member_subscribe (h : (f.subscribe a).Member b j) :
    f.Member b j ∨ b = a ∧ j = f.opened := by
  obtain ⟨feed, hfeed, hj⟩ := h
  rw [getElem?_feeds_subscribe] at hfeed
  by_cases hb : b = a
  · subst hb
    rw [if_pos rfl, Option.some_inj] at hfeed
    subst hfeed
    exact (mem_feeds_of_mem_feedToJoin hj).elim (fun hnew => .inr ⟨rfl, hnew⟩) .inl
  · rw [if_neg hb] at hfeed
    exact .inl ⟨feed, (Option.filter_eq_some_iff.1 hfeed).1, hj⟩

theorem member_unsubscribe (h : (f.unsubscribe id).Member b j) : f.Member b j := by
  obtain ⟨feed, hfeed, hj⟩ := h
  rw [getElem?_feeds_unsubscribe] at hfeed
  obtain ⟨old, hold, rfl⟩ := Option.map_eq_some_iff.1 hfeed
  refine ⟨old, hold, ?_⟩
  split at hj
  · exact (List.mem_filter.1 hj).1
  · exact hj

theorem member_next (h : (f.next id).1.Member b j) : f.Member b j := by
  rwa [Member, feeds_next] at h

theorem member_handle (h : (f.handle now a e).Member b j) : f.Member b j := by
  obtain ⟨feed, hfeed, hj⟩ := h
  rw [getElem?_feeds_handle] at hfeed
  obtain ⟨old, hold, rfl⟩ := Option.map_eq_some_iff.1 hfeed
  refine ⟨old, hold, ?_⟩
  split at hj <;> exact hj

/-! ## What never changes -/

@[simp] theorem validator_subscribe : (f.subscribe a).validator = f.validator := rfl

@[simp] theorem opened_subscribe : (f.subscribe a).opened = f.opened + 1 := rfl

@[simp] theorem validator_unsubscribe : (f.unsubscribe id).validator = f.validator := by
  unfold unsubscribe
  cases f.subscriptions[id]? <;> rfl

@[simp] theorem opened_unsubscribe : (f.unsubscribe id).opened = f.opened := by
  unfold unsubscribe
  cases f.subscriptions[id]? <;> rfl

@[simp] theorem validator_next : (f.next id).1.validator = f.validator := by
  unfold next
  cases f.subscriptions[id]? <;> rfl

@[simp] theorem opened_next : (f.next id).1.opened = f.opened := by
  unfold next
  cases f.subscriptions[id]? <;> rfl

@[simp] theorem validator_handle : (f.handle now a e).validator = f.validator := by
  unfold handle
  cases f.feeds[a]? with
  | none => rfl
  | some feed => cases h : (feed.pump.handle f.policy f.validator now e).told <;> simp [h, tell]

@[simp] theorem opened_handle : (f.handle now a e).opened = f.opened := by
  unfold handle
  cases f.feeds[a]? with
  | none => rfl
  | some feed => cases h : (feed.pump.handle f.policy f.validator now e).told <;> simp [h, tell]

end DeliveryFilter

end ParticleLedger
