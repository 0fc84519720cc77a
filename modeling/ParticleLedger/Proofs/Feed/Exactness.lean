import ParticleLedger.Proofs.Atom.Plain
import ParticleLedger.Proofs.Feed.Memory

/-!
# What a subscription is given

A subscription is given what its feed delivers after it came, whole and in order, whoever else comes
and goes meanwhile and however often the connection is lost, until it goes or the feed gives up.

Main statements: `Attached.after` (one operation seen by a subscription), `Follows.afterAll` and
`subscription_yields_exactly`.
-/

namespace ParticleLedger

namespace DeliveryFilter

variable {f : DeliveryFilter} {a b : Address} {id j now : Nat} {op : Operation}
  {ops : List Operation} {e : TransportEvent} {past queue : List Atom}

/-! ## One step seen by a subscription -/

/-- A subscription shares the running feed of its address, and some atoms wait for it. -/
structure Attached (f : DeliveryFilter) (a : Address) (j : Nat) (queue : List Atom) : Prop where
  subscription : f.subscriptions[j]? = some ⟨a, queue.map .atom, false⟩
  feed : ∃ feed, f.feeds[a]? = some feed ∧ j ∈ feed.members ∧ feed.pump.running

namespace Attached

theorem address?_eq (h : f.Attached a j queue) : f.address? j = some a := by
  simp [address?, h.subscription]

/-- A feed that runs and has a subscription is joined, so no other is opened. -/
theorem opens_eq_false (h : f.Attached a j queue) : f.opens a op = false := by
  obtain ⟨feed, hfeed, hmem, hrunning⟩ := h.feed
  have hjoin : feed.joinable = true := by
    simp [Feed.joinable, hrunning, List.ne_nil_of_mem hmem]
  cases op <;> simp [opens, hfeed, hjoin]

theorem subscribe (h : f.Attached a j queue) (hlinked : f.Linked) :
    (f.subscribe b).Attached a j queue where
  subscription := by
    have hlt := hlinked.numbered j a h.address?_eq
    rw [getElem?_subscriptions_subscribe, if_neg (by omega), h.subscription]
  feed := by
    obtain ⟨feed, hfeed, hmem, hrunning⟩ := h.feed
    have hmembers : feed.members ≠ [] := List.ne_nil_of_mem hmem
    rw [getElem?_feeds_subscribe]
    by_cases hb : a = b
    · subst hb
      have hjoin : feed.joinable = true := by simp [Feed.joinable, hrunning, hmembers]
      refine ⟨_, if_pos rfl, ?_⟩
      simp [feedToJoin, hfeed, hjoin, hmem, hrunning]
    · exact ⟨feed, by simp [hb, hfeed, hmembers], hmem, hrunning⟩

theorem unsubscribe (h : f.Attached a j queue) (hid : id ≠ j) :
    (f.unsubscribe id).Attached a j queue where
  subscription := by
    rw [getElem?_subscriptions_unsubscribe, if_neg hid.symm, h.subscription]
  feed := by
    obtain ⟨feed, hfeed, hmem, hrunning⟩ := h.feed
    rw [getElem?_feeds_unsubscribe, hfeed, Option.map_some]
    refine ⟨_, rfl, ?_⟩
    split
    · exact ⟨Feed.mem_members_leave hmem hid, Feed.pump_leave hmem hid ▸ hrunning⟩
    · exact ⟨hmem, hrunning⟩

theorem next_other (h : f.Attached a j queue) (hid : id ≠ j) :
    (f.next id).1.Attached a j queue where
  subscription := by
    rw [getElem?_subscriptions_next, if_neg hid.symm, h.subscription]
  feed := by
    rw [feeds_next]
    exact h.feed

/-- Asking takes away the atom that has waited longest. -/
theorem next (h : f.Attached a j queue) : (f.next j).1.Attached a j queue.tail where
  subscription := by
    rw [getElem?_subscriptions_next, if_pos rfl, h.subscription]
    cases queue <;> rfl
  feed := by
    rw [feeds_next]
    exact h.feed

theorem yielded_next (h : f.Attached a j queue) : f.yielded j (.next j) = queue.head?.toList := by
  have hnext : (f.next j).2 = (Subscription.next ⟨a, queue.map .atom, false⟩).2 := by
    simp [DeliveryFilter.next, h.subscription]
  simp only [yielded, hnext, if_true]
  cases queue <;> rfl

theorem handle_other (h : f.Attached a j queue) (hlinked : f.Linked) (hb : b ≠ a) :
    (f.handle now b e).Attached a j queue where
  subscription := by
    rw [getElem?_subscriptions_handle, h.subscription]
    cases hfeed : f.feeds[b]? with
    | none => rfl
    | some feed =>
      have hcount := hlinked.count_eq_zero hfeed h.address?_eq hb
      cases htold : (feed.pump.handle f.policy f.validator now e).told with
      | none => simp only [htold]
      | some event => simp [htold, hcount]
  feed := by
    obtain ⟨feed, hfeed, hmem, hrunning⟩ := h.feed
    exact ⟨feed, by rw [getElem?_feeds_handle, hfeed, Option.map_some, if_neg hb.symm], hmem,
      hrunning⟩

/-- What the feed delivers waits behind the rest, unless the feed gives up. -/
theorem handle (h : f.Attached a j queue) (hlinked : f.Linked)
    (hup : ∀ attempts last, .exhausted attempts last ∉ f.said (.meets now a e)) :
    (f.handle now a e).Attached a j (queue ++ f.delivered (.meets now a e)) := by
  obtain ⟨feed, hfeed, hmem, hrunning⟩ := h.feed
  have hcount : feed.members.count j = 1 :=
    List.count_eq_one_of_mem (hlinked.nodup a feed hfeed) hmem
  have hsaid : f.said (.meets now a e) =
      (feed.pump.handle f.policy f.validator now e).told.toList := by
    simp [said, hfeed]
  have hdoes := feed.pump.does_handle f.policy f.validator now e
  have hpump : (f.handle now a e).feeds[a]? =
      some { feed with pump := (feed.pump.handle f.policy f.validator now e).pump } := by
    rw [getElem?_feeds_handle, hfeed, Option.map_some, if_pos rfl]
  have hinbox := @getElem?_subscriptions_handle f a j now e
  rw [delivered, hsaid]
  rw [hsaid] at hup
  simp only [hfeed, h.subscription] at hinbox
  generalize feed.pump.handle f.policy f.validator now e = out at *
  cases hdoes with
  | silent htold _ hsame =>
    rw [htold] at hinbox ⊢
    exact ⟨by simpa using hinbox, _, hpump, hmem, hsame ▸ hrunning⟩
  | delivers htold _ _ _ _ hsame =>
    rw [htold] at hinbox ⊢
    refine ⟨?_, _, hpump, hmem, hsame ▸ hrunning⟩
    simpa [hcount] using hinbox
  | @givesUp attempts last htold =>
    rw [htold] at hup
    exact absurd (Option.mem_toList.2 rfl) (hup attempts last)

/-- What an operation does to a subscription: what its feed delivers joins what waits, and what it
gives away leaves. -/
theorem after (h : f.Attached a j queue) (hlinked : f.Linked) (hheld : op ≠ .unsubscribe j)
    (hup : ∀ attempts last, .exhausted attempts last ∉ f.ofPump a said op) :
    ∃ rest, (f.after op).Attached a j rest ∧
      queue ++ f.ofPump a delivered op = f.yielded j op ++ rest := by
  cases op with
  | subscribe b => exact ⟨queue, h.subscribe hlinked, by simp [yielded]⟩
  | unsubscribe id =>
    have hid : id ≠ j := fun hid => hheld (hid ▸ rfl)
    exact ⟨queue, h.unsubscribe hid, by simp [yielded]⟩
  | next id =>
    by_cases hid : id = j
    · subst hid
      refine ⟨queue.tail, h.next, ?_⟩
      rw [h.yielded_next]
      cases queue <;> simp
    · exact ⟨queue, h.next_other hid, by simp [yielded, hid]⟩
  | meets now b e =>
    by_cases hb : b = a
    · subst hb
      rw [ofPump_meets, if_pos rfl] at hup ⊢
      exact ⟨_, h.handle hlinked hup, rfl⟩
    · exact ⟨queue, h.handle_other hlinked hb, by simp [yielded, hb]⟩

end Attached

/-! ## Runs -/

/-- A subscription, with what its feed has heard and what waits. -/
structure Follows (f : DeliveryFilter) (a : Address) (j : Nat) (past queue : List Atom) :
    Prop where
  linked : f.Linked
  attached : f.Attached a j queue
  remembers : f.Remembers a past

namespace Follows

theorem after (h : f.Follows a j past queue) (hheld : op ≠ .unsubscribe j)
    (hup : ∀ attempts last, .exhausted attempts last ∉ f.ofPump a said op) :
    ∃ rest, (f.after op).Follows a j (past ++ f.ofPump a heard op) rest ∧
      queue ++ f.ofPump a delivered op = f.yielded j op ++ rest := by
  obtain ⟨rest, hattached, hqueue⟩ := h.attached.after h.linked hheld hup
  have hremembers := @Remembers.after f a op past h.remembers
  rw [h.attached.opens_eq_false, if_neg Bool.false_ne_true] at hremembers
  exact ⟨rest, ⟨h.linked.after, hattached, hremembers⟩, hqueue⟩

/-- While a subscription is held and its feed has not given up, it has given away, or keeps waiting,
what the feed delivered: of what was heard, the first valid copies. -/
theorem afterAll (h : f.Follows a j past queue) (hheld : .unsubscribe j ∉ ops)
    (hup : ∀ attempts last, .exhausted attempts last ∉ f.collect (ofPump a said) ops) :
    ∃ rest, (f.afterAll ops).Follows a j (past ++ f.collect (ofPump a heard) ops) rest ∧
      queue ++ f.collect (ofPump a delivered) ops = f.collect (yielded j) ops ++ rest ∧
      f.collect (ofPump a delivered) ops =
        firstValid f.validator past (f.collect (ofPump a heard) ops) := by
  induction ops generalizing f past queue with
  | nil => exact ⟨queue, by simpa using h, by simp, by simp [firstValid]⟩
  | cons op ops ih =>
    simp only [collect_cons, List.mem_append, List.mem_cons, not_or] at hup hheld
    obtain ⟨waiting, hfirst, hqueue⟩ :=
      h.after (Ne.symm hheld.1) fun attempts last => (hup attempts last).1
    obtain ⟨rest, hrest, hlater, hdelivered⟩ :=
      ih hfirst hheld.2 fun attempts last => (hup attempts last).2
    refine ⟨rest, ?_, ?_, ?_⟩
    · simpa using hrest
    · rw [collect_cons, collect_cons, ← List.append_assoc, hqueue, List.append_assoc, hlater,
        List.append_assoc]
    · rw [collect_cons, collect_cons, firstValid_append, h.remembers.ofPump_delivered, hdelivered,
        validator_after]

end Follows

/-- Asked often enough, a subscription gives away all that waits. -/
theorem Attached.collect_yielded_next (h : f.Attached a j queue) {n : Nat} (hn : queue.length ≤ n) :
    f.collect (yielded j) (List.replicate n (.next j)) = queue := by
  induction n generalizing f queue with
  | zero => exact (List.eq_nil_of_length_eq_zero (Nat.le_zero.1 hn)).symm
  | succ n ih =>
    have htail : queue.tail.length ≤ n := by
      rw [List.length_tail]
      omega
    rw [List.replicate_succ, collect_cons, h.yielded_next, after_next, ih h.next htail]
    cases queue <;> rfl

/-- A new subscription follows its feed from where the feed is. -/
theorem follows_subscribe (hlinked : f.Linked) (hremembers : (f.subscribe a).Remembers a past) :
    (f.subscribe a).Follows a f.opened past [] where
  linked := hlinked.subscribe
  remembers := hremembers
  attached := by
    have hfeed : (f.subscribe a).feeds[a]? = some (f.feedToJoin a) := by
      rw [getElem?_feeds_subscribe, if_pos rfl]
    refine ⟨?_, _, hfeed, mem_members_feedToJoin, ?_⟩
    · rw [getElem?_subscriptions_subscribe, if_pos rfl]
      rfl
    · unfold feedToJoin
      cases f.feeds[a]? with
      | none => rfl
      | some feed =>
        by_cases hjoin : feed.joinable
        · have hrunning : feed.pump.running := by
            simp only [Feed.joinable, Bool.and_eq_true] at hjoin
            exact hjoin.2
          simpa [hjoin] using hrunning
        · simp only [if_neg hjoin]
          rfl

/-- What a subscription yields. It was opened after some operations, and others followed, in which it
was not dropped and its feed did not give up. What it has yielded is, in that order, of the atoms that
its feed heard since, those that are valid and the first with their name to be so, among all that the
feed ever heard; asked often enough it yields them all. So no name comes twice, and of everything
valid that is heard a copy is among them, unless a valid copy was heard before. These are the atoms
that the feed delivers, and the counts agree with what was heard and delivered. -/
theorem subscription_yields_exactly {policy : RetryPolicy} {validator : AtomValidator}
    {earlier later : List Operation} {a : Address} {f : DeliveryFilter}
    (hf : f = (empty policy validator).afterAll earlier)
    (hheld : .unsubscribe f.opened ∉ later)
    (hup : ∀ attempts last,
      .exhausted attempts last ∉ (f.subscribe a).collect (ofPump a said) later) :
    let g := f.subscribe a
    let past := (empty policy validator).history a [] (earlier ++ [.subscribe a])
    let since := g.collect (ofPump a heard) later
    let due := firstValid validator past since
    let run := earlier ++ .subscribe a :: later
    let counts := ((empty policy validator).afterAll run).counts
    g.collect (yielded f.opened) later <+: due ∧
    (∀ n, due.length ≤ n →
      g.collect (yielded f.opened) (later ++ List.replicate n (.next f.opened)) = due) ∧
    ((g.collect (yielded f.opened) later).map Atom.id).Nodup ∧
    (∀ x ∈ since, validator x = .ok () →
      (∃ y ∈ past, validator y = .ok () ∧ y.id = x.id) ∨ ∃ y ∈ due, y.id = x.id) ∧
    g.collect (ofPump a delivered) later = due ∧
    counts.received = ((empty policy validator).collect heard run).length ∧
    counts.received = counts.duplicate + counts.rejected +
      ((empty policy validator).collect delivered run).length := by
  intro g past since due run counts
  have hlinked : f.Linked := hf ▸ (Linked.empty policy validator).afterAll earlier
  have hpast : g.Remembers a past := by
    have hempty := Remembers.empty (a := a) policy validator
    have hrun := hempty.afterAll (earlier ++ [.subscribe a])
    rwa [afterAll_concat, ← hf] at hrun
  have hvalidator : g.validator = validator := by simp [g, hf, empty]
  obtain ⟨rest, hfollows, hqueue, hdelivered⟩ :=
    (follows_subscribe hlinked hpast).afterAll hheld hup
  rw [List.nil_append] at hqueue
  rw [hvalidator] at hdelivered
  have hdue : g.collect (yielded f.opened) later ++ rest = due := hqueue ▸ hdelivered
  have hcounted : Counted counts ((empty policy validator).collect heard run)
      ((empty policy validator).collect delivered run) := by
    have hempty : Counted (empty policy validator).counts [] [] := ⟨rfl, rfl⟩
    exact hempty.afterAll run
  refine ⟨⟨rest, hdue⟩, fun n hn => ?_, ?_, fun x => exists_firstValid, hdelivered,
    hcounted.received, ?_⟩
  · have hrest : rest.length ≤ n := by
      have hlength := congrArg List.length hdue
      rw [List.length_append] at hlength
      omega
    rw [collect_append, hfollows.attached.collect_yielded_next hrest, hdue]
  · have hinitial : g.collect (yielded f.opened) later <+: due := ⟨rest, hdue⟩
    exact (hinitial.map Atom.id).sublist.nodup nodup_ids_firstValid
  · rw [hcounted.dropped, hcounted.received]

end DeliveryFilter

namespace Sample

open DeliveryFilter (Operation)

/-- A scheme that accepts every signature. -/
def trusting : SignatureScheme where
  publicKey _ := address.key
  sign _ _ := ⟨Vector.replicate 64 0⟩
  fault? _ _ _ := none

/-- The atom that spends the coin, with a signature of the owner. -/
def signedSpend : Atom :=
  spend.withSignature address.key ⟨Vector.replicate 64 0⟩

/-- A first subscription opens the feed of the account, and an unsigned copy of the atom arrives. -/
def opening : List Operation :=
  [.subscribe address, .meets 0 address (.connected 0), .meets 0 address (.arrived spend)]

/-- The connection is lost and the first subscription goes; on the next connection the signed copy
arrives. -/
def reconnecting : List Operation :=
  [.meets 0 address .ended, .unsubscribe 0, .meets 1000 address .elapsed,
    .meets 1000 address (.connected 1), .meets 1000 address (.arrived signedSpend)]

/-- A filter that asks for signatures, after the opening. -/
def filter : DeliveryFilter :=
  (DeliveryFilter.empty ⟨5, 60⟩ (signatureValidator trusting)).afterAll opening

end Sample

/-- A second subscription is given the signed copy of an atom whose unsigned copy was rejected on an
earlier connection. -/
theorem DeliveryFilter.subscription_yields_exactly_signed_copy :
    (∀ attempts last, .exhausted attempts last ∉ (Sample.filter.subscribe Sample.address).collect
      (ofPump Sample.address said) Sample.reconnecting) ∧
    (Sample.filter.subscribe Sample.address).collect (yielded 1)
      (Sample.reconnecting ++ [.next 1]) = [Sample.signedSpend] ∧
    ((Sample.filter.subscribe Sample.address).afterAll Sample.reconnecting).counts = ⟨2, 0, 1⟩ := by
  have hsaid : (Sample.filter.subscribe Sample.address).collect (ofPump Sample.address said)
      Sample.reconnecting = [.atom Sample.signedSpend] := by decide +kernel
  have hup : ∀ attempts last, .exhausted attempts last ∉
      (Sample.filter.subscribe Sample.address).collect (ofPump Sample.address said)
        Sample.reconnecting := by
    simp [hsaid]
  have hopened : Sample.filter.opened = 1 := by decide +kernel
  have hheld : .unsubscribe Sample.filter.opened ∉ Sample.reconnecting := by
    simp [hopened, Sample.reconnecting]
  have hfilter : Sample.filter =
      (empty ⟨5, 60⟩ (signatureValidator Sample.trusting)).afterAll Sample.opening := rfl
  obtain ⟨-, hall, -⟩ := subscription_yields_exactly hfilter hheld hup
  have hdue : firstValid (signatureValidator Sample.trusting)
      ((empty ⟨5, 60⟩ (signatureValidator Sample.trusting)).history Sample.address []
        (Sample.opening ++ [.subscribe Sample.address]))
      ((Sample.filter.subscribe Sample.address).collect (ofPump Sample.address heard)
        Sample.reconnecting) = [Sample.signedSpend] := by
    decide +kernel
  have hyielded := hall 1 (by rw [hdue]; exact Nat.le_refl 1)
  rw [hdue, hopened] at hyielded
  exact ⟨hup, hyielded, by decide +kernel⟩

end ParticleLedger
