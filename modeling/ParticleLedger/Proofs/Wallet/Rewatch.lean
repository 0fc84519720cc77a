import ParticleLedger.Proofs.Feed.Sharing
import ParticleLedger.Proofs.Wallet.Convergence

/-!
# Watching an address again

A task that was told to stop may still forward some of what waits for it, and its subscription shares
the feed of the address until the task is removed. If the address is watched again meanwhile, the new
task joins that feed, which goes on dropping the atoms that it remembers; and what still waits for the
old task when it is removed goes with it.

So an atom that a feed remembers has reached the reconcilers, or waits for the task of the address,
in every state of a run, exactly if the address is only watched again once all that waits for the
members of its feed has reached the reconcilers; for instance, if no task of the address is left.

Main statements: `Wiring.Tended.step` (who reads what), `covered_after` (what one step keeps),
`rewatch_exact` and `atom_lost_between_watches`.
-/

namespace ParticleLedger

open Std (ExtTreeMap)

namespace Wallet

open Registry (everything)

/-! ## Who reads what -/

namespace Wiring

variable {c c' : Wiring} {a : Address} {e : Event} {n : Nat} {t : ForwardingTask}

/-- Each subscription is read by one task, and the task of an address that is watched shares the
feed of the address. -/
structure Tended (c : Wiring) : Prop where
  linked : c.filter.Linked
  subscription : ∀ (n : Nat) (t : ForwardingTask), c.tasks[n]? = some t →
    c.filter.address? t.subscription = some t.address
  reader : ∀ (j : Nat) (a : Address), c.filter.address? j = some a →
    ∃ (n : Nat) (t : ForwardingTask), c.tasks[n]? = some t ∧ t.subscription = j
  alone : ∀ (n m : Nat) (t s : ForwardingTask), c.tasks[n]? = some t → c.tasks[m]? = some s →
    t.subscription = s.subscription → n = m
  handle : ∀ (a : Address) (n : Nat) (t : ForwardingTask), c.handles[a]? = some n →
    c.tasks[n]? = some t → t.address = a ∧ c.filter.Member a t.subscription

namespace Tended

theorem starts (h : c.Tended) (hnum : c.Numbered) :
    Tended ⟨c.filter.subscribe a, c.tasks.insert c.spawned ⟨a, c.filter.opened, false⟩,
      c.handles.insert a c.spawned, c.spawned + 1⟩ := by
  have hold : ∀ {n : Nat} {t : ForwardingTask}, c.tasks[n]? = some t →
      (c.tasks.insert c.spawned ⟨a, c.filter.opened, false⟩)[n]? = some t := by
    intro n t ht
    have hlt := (hnum.task_lt n t ht).1
    rw [ExtTreeMap.getElem?_insert, if_neg (by simp; omega), ht]
  have horigin : ∀ {n : Nat} {t : ForwardingTask},
      (c.tasks.insert c.spawned ⟨a, c.filter.opened, false⟩)[n]? = some t →
      c.tasks[n]? = some t ∨ n = c.spawned ∧ t = ⟨a, c.filter.opened, false⟩ := by
    intro n t ht
    simp only [ExtTreeMap.getElem?_insert, Nat.compare_eq_eq] at ht
    by_cases hn : c.spawned = n
    · rw [if_pos hn, Option.some_inj] at ht
      exact .inr ⟨hn.symm, ht.symm⟩
    · rw [if_neg hn] at ht
      exact .inl ht
  refine ⟨h.linked.subscribe, ?_, ?_, ?_, ?_⟩
  · intro n t ht
    rw [DeliveryFilter.address?_subscribe]
    rcases horigin ht with ht | ⟨-, rfl⟩
    · have hlt := (hnum.task_lt n t ht).2
      rw [if_neg (by omega)]
      exact h.subscription n t ht
    · exact if_pos rfl
  · intro j b hj
    rw [DeliveryFilter.address?_subscribe] at hj
    by_cases hnew : j = c.filter.opened
    · exact ⟨c.spawned, ⟨a, c.filter.opened, false⟩, by simp, hnew.symm⟩
    · rw [if_neg hnew] at hj
      obtain ⟨n, t, ht, hreads⟩ := h.reader j b hj
      exact ⟨n, t, hold ht, hreads⟩
  · intro n m t s ht hs hsame
    rcases horigin ht with ht | ⟨rfl, rfl⟩ <;> rcases horigin hs with hs | ⟨rfl, rfl⟩
    · exact h.alone n m t s ht hs hsame
    · have hlt := (hnum.task_lt n t ht).2
      simp only at hsame
      omega
    · have hlt := (hnum.task_lt m s hs).2
      simp only at hsame
      omega
    · rfl
  · intro b n t hn ht
    simp only [ExtTreeMap.getElem?_insert, Std.compare_eq_iff_eq] at hn
    by_cases hb : a = b
    · subst hb
      rw [if_pos rfl, Option.some_inj] at hn
      rcases horigin ht with ht | ⟨-, rfl⟩
      · have hlt := (hnum.task_lt n t ht).1
        omega
      · exact ⟨rfl, .subscribed⟩
    · rw [if_neg hb] at hn
      rcases horigin ht with ht | ⟨rfl, -⟩
      · obtain ⟨hown, hshares⟩ := h.handle b n t hn ht
        exact ⟨hown, hshares.subscribe_other (Ne.symm hb)⟩
      · exact absurd (hnum.handle_lt b _ hn) (Nat.lt_irrefl _)

/-- A task that is told to stop keeps its address and its subscription. -/
theorem stops (h : c.Tended) :
    Tended ⟨c.filter, c.tasks.modify n fun t => { t with aborted := true }, c.handles.erase a,
      c.spawned⟩ := by
  have hget : ∀ m : Nat, (c.tasks.modify n fun t => { t with aborted := true })[m]? =
      c.tasks[m]?.map fun t => if n = m then { t with aborted := true } else t := by
    intro m
    simp only [ExtTreeMap.getElem?_modify, Nat.compare_eq_eq]
    by_cases hm : n = m <;> simp [hm]
  have horigin : ∀ {m : Nat} {s : ForwardingTask},
      (c.tasks.modify n fun t => { t with aborted := true })[m]? = some s →
      ∃ before, c.tasks[m]? = some before ∧ before.address = s.address ∧
        before.subscription = s.subscription := by
    intro m s hs
    rw [hget] at hs
    obtain ⟨before, hbefore, rfl⟩ := Option.map_eq_some_iff.1 hs
    refine ⟨before, hbefore, ?_, ?_⟩ <;> split <;> rfl
  refine ⟨h.linked, ?_, ?_, ?_, ?_⟩
  · intro m s hs
    obtain ⟨before, hbefore, haddress, hsub⟩ := horigin hs
    rw [← haddress, ← hsub]
    exact h.subscription m before hbefore
  · intro j b hj
    obtain ⟨m, s, hs, hreads⟩ := h.reader j b hj
    refine ⟨m, _, by rw [hget, hs, Option.map_some], ?_⟩
    split <;> exact hreads
  · intro m k s u hs hu hsame
    obtain ⟨before, hbefore, -, hsub⟩ := horigin hs
    obtain ⟨other, hother, -, hsub'⟩ := horigin hu
    exact h.alone m k before other hbefore hother (hsub.trans (hsame.trans hsub'.symm))
  · intro b m s hm hs
    obtain ⟨before, hbefore, haddress, hsub⟩ := horigin hs
    rw [ExtTreeMap.getElem?_erase] at hm
    split at hm
    · contradiction
    · rw [← haddress, ← hsub]
      exact h.handle b m before hm hbefore

/-- A task ends, and its subscription goes with it. -/
theorem ends (h : c.Tended) (ht : c.tasks[n]? = some t) :
    Tended ⟨c.filter.unsubscribe t.subscription, c.tasks.erase n, c.handles, c.spawned⟩ := by
  have horigin : ∀ {m : Nat} {s : ForwardingTask}, (c.tasks.erase n)[m]? = some s →
      c.tasks[m]? = some s ∧ s.subscription ≠ t.subscription := by
    intro m s hs
    simp only [ExtTreeMap.getElem?_erase, Nat.compare_eq_eq] at hs
    by_cases hm : n = m
    · rw [if_pos hm] at hs
      contradiction
    · rw [if_neg hm] at hs
      exact ⟨hs, fun hsame => hm (h.alone n m t s ht hs hsame.symm)⟩
  refine ⟨h.linked.unsubscribe, ?_, ?_, ?_, ?_⟩
  · intro m s hs
    obtain ⟨hbefore, hother⟩ := horigin hs
    rw [DeliveryFilter.address?_unsubscribe, if_neg hother]
    exact h.subscription m s hbefore
  · intro j b hj
    rw [DeliveryFilter.address?_unsubscribe] at hj
    by_cases hgone : j = t.subscription
    · rw [if_pos hgone] at hj
      contradiction
    · rw [if_neg hgone] at hj
      obtain ⟨m, s, hs, hreads⟩ := h.reader j b hj
      have hm : n ≠ m := by
        rintro rfl
        rw [ht, Option.some_inj] at hs
        exact hgone (hs ▸ hreads.symm)
      exact ⟨m, s, by simp [ExtTreeMap.getElem?_erase, hm, hs], hreads⟩
  · intro m k s u hs hu hsame
    exact h.alone m k s u (horigin hs).1 (horigin hu).1 hsame
  · intro b m s hm hs
    obtain ⟨hbefore, hother⟩ := horigin hs
    obtain ⟨hown, hshares⟩ := h.handle b m s hm hbefore
    exact ⟨hown, hshares.unsubscribe_other (Ne.symm hother)⟩

/-- A filter that serves the same subscriptions and members does as well. -/
theorem withFilter (h : c.Tended) {filter : DeliveryFilter} (hlinked : filter.Linked)
    (haddress : ∀ j, filter.address? j = c.filter.address? j)
    (hmember : ∀ a j, c.filter.Member a j → filter.Member a j) :
    Tended { c with filter } where
  linked := hlinked
  subscription n t ht := (haddress _).trans (h.subscription n t ht)
  reader j a hj := h.reader j a ((haddress j).symm.trans hj)
  alone := h.alone
  handle a n t hn ht := by
    obtain ⟨hown, hshares⟩ := h.handle a n t hn ht
    exact ⟨hown, hmember a _ hshares⟩

theorem step (h : c.Tended) (hnum : c.Numbered) (hstep : c.Step e c') : c'.Tended := by
  cases hstep with
  | stays => exact h
  | starts => exact h.starts hnum
  | stops => exact h.stops
  | reaps ht => exact h.ends ht
  | reads =>
    exact h.withFilter h.linked.next (fun _ => DeliveryFilter.address?_next) fun _ _ hj => hj.next
  | ends ht =>
    rw [DeliveryFilter.unsubscribe_next]
    exact h.ends ht
  | meets =>
    exact h.withFilter h.linked.handle (fun _ => DeliveryFilter.address?_handle) fun _ _ hj =>
      hj.handle

end Tended

end Wiring

variable {w : Wallet} {a : Address} {e : Event} {n : Nat} {given : List Atom}

theorem tended_run (scheme : SignatureScheme) (config : Config) (events : List Event) :
    ((create scheme config).run events).wiring.Tended := by
  induction events using List.reverseRecOn with
  | nil =>
    refine ⟨DeliveryFilter.Linked.empty _ _, ?_, ?_, ?_, ?_⟩
    · intro n t ht
      simp [create, wiring] at ht
    · intro j b hj
      simp [create, wiring, DeliveryFilter.address?, DeliveryFilter.empty] at hj
    · intro n m t s ht
      simp [create, wiring] at ht
    · intro b n t hn
      simp [create, wiring] at hn
  | append_singleton events e ih =>
    rw [run_concat]
    exact ih.step (numbered_run scheme config events) (step_after _ e)

/-! ## What one step does to queues and memories -/

section Shares

variable {R R' : List Atom → Std.ExtTreeSet AtomId → Prop}

/-- A step of a task takes an atom of the address out of a queue, or leaves all queues of the
address. -/
theorem shares_after_forward (htended : w.wiring.Tended) (h : w.filter.Shares a R)
    (hother : ∀ queue seen, R queue seen → R' queue seen)
    (hown : ∀ x rest seen, w.taken? n = some (a, x) → R (x :: rest) seen → R' rest seen) :
    (w.after (.forward n)).filter.Shares a R' := by
  have hlinked : w.filter.Linked := htended.linked
  have hforwards := forwards_after w n
  generalize w.taken? n = taken at hforwards hown
  generalize w.after (.forward n) = w' at hforwards ⊢
  cases hforwards with
  | rests => exact h.mono hother
  | @passes t x ht hx hok =>
    refine h.next hother ?_
    intro queue seen hsub hR
    -- The task reads this queue, so it is a task of the address.
    have haddress : t.address = a := by
      have hreads := htended.subscription n t ht
      have hqueue : w.filter.address? t.subscription = some a := by
        simp [DeliveryFilter.address?, hsub]
      exact Option.some_inj.1 (hreads.symm.trans hqueue)
    obtain ⟨s, rest, hs, -, hinbox⟩ := DeliveryFilter.next_eq_ok hx
    rw [hsub, Option.some_inj] at hs
    subst hs
    cases queue with
    | nil => contradiction
    | cons y queue =>
      obtain ⟨rfl, -⟩ : y = x ∧ queue.map FeedEvent.atom = rest := by simpa using hinbox
      exact hown y queue seen (by rw [haddress]) hR
  | @fails t x cause ht hx hviolation =>
    show ((w.filter.next t.subscription).1.unsubscribe t.subscription).Shares a R'
    rw [DeliveryFilter.unsubscribe_next]
    exact (h.unsubscribe hlinked).mono hother
  | @ends t ht hend hmore =>
    show ((w.filter.next t.subscription).1.unsubscribe t.subscription).Shares a R'
    rw [DeliveryFilter.unsubscribe_next]
    exact (h.unsubscribe hlinked).mono hother

/-- Any other step lets a subscription come or go, or lets a feed deliver. -/
theorem shares_after_other (htended : w.wiring.Tended) (hforward : ∀ n, e ≠ .forward n)
    (h : w.filter.Shares a R) (hempty : R [] ∅)
    (hjoin : e = .watch a → w.isWatching a = false →
      ∀ feed, w.filter.feeds[a]? = some feed → feed.joinable → R [] feed.pump.seen)
    (hdeliver : ∀ x queue seen, R queue seen → R (queue ++ [x]) (seen.insert x.id)) :
    (w.after e).filter.Shares a R := by
  have hlinked : w.filter.Linked := htended.linked
  have hstep := step_after w e
  show (w.after e).wiring.filter.Shares a R
  generalize (w.after e).wiring = c' at hstep
  cases hstep with
  | stays => exact h
  | @starts b hnew =>
    refine h.subscribe hlinked hempty ?_
    rintro rfl
    exact hjoin rfl hnew
  | stops => exact h
  | reaps => exact h.unsubscribe hlinked
  | reads => exact absurd rfl (hforward _)
  | ends => exact absurd rfl (hforward _)
  | meets => exact h.handle hlinked hdeliver

end Shares

/-- Whatever waits for the members of a feed, the feed remembers. -/
theorem remembered_run (scheme : SignatureScheme) (config : Config) (a : Address)
    (events : List Event) :
    ((create scheme config).run events).filter.Shares a Queue.Remembered := by
  induction events using List.reverseRecOn with
  | nil =>
    intro feed hfeed
    simp [create, DeliveryFilter.empty] at hfeed
  | append_singleton events e ih =>
    rw [run_concat]
    have htended := tended_run scheme config events
    by_cases hforward : ∃ n, e = .forward n
    · obtain ⟨n, rfl⟩ := hforward
      refine shares_after_forward htended ih (fun _ _ h => h) ?_
      intro x rest seen _ h y hy
      exact h y (List.mem_cons_of_mem x hy)
    · refine shares_after_other htended (fun n he => hforward ⟨n, he⟩) ih ?_ ?_ ?_
      · intro x hx
        contradiction
      · intro _ _ feed _ _ x hx
        contradiction
      · intro x queue seen h
        exact h.deliver

/-! ## What is accounted for -/

/-- The reconciler of the address has met no violation. -/
def Unhalted (w : Wallet) (a : Address) : Prop :=
  ∀ r, w.registry.get? (everything a) = some r → r.halted = none

/-- If the address is watched and its feed runs, every atom that the feed remembers is a copy of one
that was given to the reconcilers or waits for the task of the address. -/
def Accounted (w : Wallet) (a : Address) (given : List Atom) : Prop :=
  ∀ (n : Nat) (t : ForwardingTask) (feed : Feed), w.handles[a]? = some n → w.tasks[n]? = some t →
    w.filter.feeds[a]? = some feed → feed.pump.running →
    ∀ id ∈ feed.pump.seen, ∃ x ∈ given ++ w.filter.waiting t.subscription, x.id = id

/-- Whatever waits for the members of the feed of the address, if one can be joined, is a copy of
what was given to the reconcilers. -/
def CaughtUp (w : Wallet) (a : Address) (given : List Atom) : Prop :=
  ∀ feed : Feed, w.filter.feeds[a]? = some feed → feed.joinable → ∀ j ∈ feed.members,
    ∀ x ∈ w.filter.waiting j, ∃ y ∈ given, y.id = x.id

theorem unhalted_iff : w.Unhalted a ↔ (w.registry.ledger a).halted = none := by
  unfold Unhalted Registry.ledger
  cases w.registry.get? (everything a) with
  | none => simp [Reconciler.fresh, Reconciler.alone]
  | some r => simp [Reconciler.alone]

/-- A violation is not forgotten. -/
theorem Unhalted.before (h : (w.after e).Unhalted a) (hgrounded : w.Grounded) : w.Unhalted a := by
  rw [unhalted_iff, ledger_after hgrounded] at h
  rw [unhalted_iff]
  cases hhalted : (w.registry.ledger a).halted with
  | none => rfl
  | some reason =>
    have hstays : ∀ atoms : List Atom,
        (w.registry.ledger a).acceptAll atoms = w.registry.ledger a := by
      intro atoms
      induction atoms with
      | nil => rfl
      | cons x rest ih =>
        show ((w.registry.ledger a).accept x).reconciler.acceptAll rest = _
        rw [Reconciler.accept_of_halted hhalted]
        exact ih
    rw [hstays, hhalted] at h
    contradiction

theorem unhalted_watch (hgrounded : w.Grounded) (h : w.Unhalted a) :
    (w.after (.watch a)).Unhalted a := by
  rw [unhalted_iff, ledger_after hgrounded]
  exact unhalted_iff.1 h

/-- A subscription that comes to a feed that has caught up misses nothing. -/
theorem CaughtUp.covered (h : w.CaughtUp a given)
    (hcovered : w.filter.Shares a (Queue.Covered given)) {feed : Feed}
    (hfeed : w.filter.feeds[a]? = some feed) (hjoin : feed.joinable) :
    Queue.Covered given [] feed.pump.seen := by
  intro id hid
  obtain ⟨hsome, hrunning⟩ := Feed.joinable_iff.1 hjoin
  obtain ⟨j, hj⟩ := List.exists_mem_of_ne_nil _ hsome
  obtain ⟨queue, hsub, hqueue⟩ := hcovered feed hfeed hrunning j hj
  obtain ⟨x, hx, rfl⟩ := hqueue id hid
  rw [List.append_nil]
  rcases List.mem_append.1 hx with hx | hx
  · exact ⟨x, hx, rfl⟩
  · exact h feed hfeed hjoin j hj x (by rwa [DeliveryFilter.waiting_eq hsub])

/-- What is remembered stays given or waiting, unless the address is watched again too early. -/
theorem covered_after (htended : w.wiring.Tended)
    (h : w.filter.Shares a (Queue.Covered given))
    (hcaught : e = .watch a → w.isWatching a = false → w.CaughtUp a given) :
    (w.after e).filter.Shares a (Queue.Covered (given ++ w.handed a e)) := by
  by_cases hforward : ∃ n, e = .forward n
  · obtain ⟨n, rfl⟩ := hforward
    refine shares_after_forward htended h (fun _ _ hq => hq.mono _) ?_
    intro x rest seen htaken hq
    have hhanded : w.handed a (.forward n) = [x] := by simp [handed, htaken]
    rw [hhanded]
    exact hq.give
  · have hnone : w.handed a e = [] := by
      refine handed_eq_nil ?_
      intro n t he
      exact absurd ⟨n, he⟩ hforward
    rw [hnone, List.append_nil]
    refine shares_after_other htended (fun n he => hforward ⟨n, he⟩) h ?_ ?_ ?_
    · intro id hid
      simp at hid
    · intro he hnew feed hfeed hjoin
      exact (hcaught he hnew).covered h hfeed hjoin
    · intro x queue seen hq
      exact hq.deliver

theorem covered_run (scheme : SignatureScheme) (config : Config) (a : Address)
    (events : List Event)
    (hcaught : ∀ first, first ++ [.watch a] <+: events →
      ((create scheme config).run first).isWatching a = false →
      ((create scheme config).run first).CaughtUp a
        ((create scheme config).collect (handed a) first)) :
    ((create scheme config).run events).filter.Shares a
      (Queue.Covered ((create scheme config).collect (handed a) events)) := by
  induction events using List.reverseRecOn with
  | nil =>
    intro feed hfeed
    simp [create, DeliveryFilter.empty] at hfeed
  | append_singleton events e ih =>
    rw [run_concat, collect_concat]
    refine covered_after (tended_run scheme config events) (ih ?_) ?_
    · intro first hfront
      exact hcaught first (hfront.trans (List.prefix_append events [e]))
    · rintro rfl hnew
      exact hcaught events List.prefix_rfl hnew

theorem accounted_of_covered (htended : w.wiring.Tended)
    (h : w.filter.Shares a (Queue.Covered given)) : w.Accounted a given := by
  intro n t feed hn ht hfeed hrunning id hid
  obtain ⟨-, member, hmember, hmem⟩ := htended.handle a n t hn ht
  obtain rfl : feed = member := Option.some_inj.1 (hfeed.symm.trans hmember)
  obtain ⟨queue, hsub, hcovered⟩ := h feed hfeed hrunning t.subscription hmem
  rw [DeliveryFilter.waiting_eq hsub]
  exact hcovered id hid

theorem wiring_watch (hnew : w.isWatching a = false) : (w.after (.watch a)).wiring =
    ⟨w.filter.subscribe a, w.tasks.insert w.spawned ⟨a, w.filter.opened, false⟩,
      w.handles.insert a w.spawned, w.spawned + 1⟩ := by
  simp only [after, watch, hnew]
  rfl

/-- Right after an address is watched again nothing waits for its task, so what the feed remembers
has been given to the reconcilers, and with it what waits for the other members. -/
theorem caughtUp_of_accounted (hremembered : w.filter.Shares a Queue.Remembered)
    (hnew : w.isWatching a = false) (h : (w.after (.watch a)).Accounted a given) :
    w.CaughtUp a given := by
  intro feed hfeed hjoin j hj x hx
  obtain ⟨-, hrunning⟩ := Feed.joinable_iff.1 hjoin
  obtain ⟨queue, hsub, hqueue⟩ := hremembered feed hfeed hrunning j hj
  rw [DeliveryFilter.waiting_eq hsub] at hx
  have hwiring := wiring_watch hnew
  have hfilter : (w.after (.watch a)).filter = w.filter.subscribe a :=
    congrArg Wiring.filter hwiring
  have htasks : (w.after (.watch a)).tasks[w.spawned]? = some ⟨a, w.filter.opened, false⟩ := by
    rw [show (w.after (.watch a)).tasks = _ from congrArg Wiring.tasks hwiring]
    simp
  have hhandles : (w.after (.watch a)).handles[a]? = some w.spawned := by
    rw [show (w.after (.watch a)).handles = _ from congrArg Wiring.handles hwiring]
    simp
  have hjoined : (w.after (.watch a)).filter.feeds[a]? =
      some { feed with members := feed.members ++ [w.filter.opened] } := by
    rw [hfilter, DeliveryFilter.getElem?_feeds_subscribe, if_pos rfl]
    simp [DeliveryFilter.feedToJoin, hfeed, hjoin]
  have hnone : (w.after (.watch a)).filter.waiting w.filter.opened = [] := by
    have hfresh : (w.after (.watch a)).filter.subscriptions[w.filter.opened]? =
        some ⟨a, [].map .atom, false⟩ := by
      rw [hfilter, DeliveryFilter.getElem?_subscriptions_subscribe, if_pos rfl]
      rfl
    exact DeliveryFilter.waiting_eq hfresh
  have hgiven := h w.spawned _ _ hhandles htasks hjoined hrunning x.id (hqueue x hx)
  rwa [hnone, List.append_nil] at hgiven

theorem Unhalted.run {more : List Event} (hgrounded : w.Grounded) (h : (w.run more).Unhalted a) :
    w.Unhalted a := by
  induction more using List.reverseRecOn with
  | nil => exact h
  | append_singleton more e ih =>
    rw [run_concat] at h
    exact ih (h.before (hgrounded.run more))

/-- If no task of the address is left, no member of its feed is. -/
theorem caughtUp_of_no_task (htended : w.wiring.Tended)
    (h : ∀ (n : Nat) (t : ForwardingTask), w.tasks[n]? = some t → t.address ≠ a) :
    w.CaughtUp a given := by
  intro feed hfeed _ j hj
  have haddress := htended.linked.address_of_member a j ⟨feed, hfeed, hj⟩
  obtain ⟨n, t, ht, hreads⟩ := htended.reader j a haddress
  have hown := htended.subscription n t ht
  rw [hreads, haddress, Option.some_inj] at hown
  exact absurd hown.symm (h n t ht)

/-- The steps of a wallet may interleave in any order. While the reconciler of an address has met
no violation, each atom that the feed of the address remembers has been given to the reconcilers or
waits for the task of the address, in every state of a run, exactly if whenever the address is
watched again all that waits for the members of the feed it joins has been given to the
reconcilers. That is so if no task of the address is left by then. -/
theorem rewatch_exact (scheme : SignatureScheme) (config : Config) (a : Address)
    (events : List Event) :
    let reached (first : List Event) : Wallet := (create scheme config).run first
    let given (first : List Event) : List Atom := (create scheme config).collect (handed a) first
    ((∀ first, first <+: events → (reached first).Unhalted a →
        (reached first).Accounted a (given first)) ↔
      ∀ first, first ++ [.watch a] <+: events → (reached first).Unhalted a →
        (reached first).isWatching a = false → (reached first).CaughtUp a (given first)) ∧
    ((∀ first, first ++ [.watch a] <+: events → (reached first).isWatching a = false →
        ∀ (n : Nat) (t : ForwardingTask), (reached first).tasks[n]? = some t → t.address ≠ a) →
      ∀ first, first <+: events → (reached first).Accounted a (given first)) := by
  intro reached given
  have htended := tended_run scheme config
  have hgrounded : ∀ first, (reached first).Grounded := fun first =>
    (Grounded.create scheme config).run first
  refine ⟨⟨?_, ?_⟩, ?_⟩
  · intro haccounted first hfront hunhalted hnew
    have hthen := haccounted (first ++ [.watch a]) hfront
    simp only [reached, given, run_concat, collect_concat] at hthen
    rw [show ((create scheme config).run first).handed a (.watch a) = [] from rfl,
      List.append_nil] at hthen
    exact caughtUp_of_accounted (remembered_run scheme config a first) hnew
      (hthen (unhalted_watch (hgrounded first) hunhalted))
  · intro hcaught first hfront hunhalted
    refine accounted_of_covered (htended first) (covered_run scheme config a first ?_)
    intro before hbefore hnew
    -- What has met no violation by now had met none before.
    have hstill : (reached before).Unhalted a := by
      obtain ⟨rest, hrest⟩ := hbefore
      refine @Unhalted.run _ _ ([.watch a] ++ rest) (hgrounded before) ?_
      rwa [← run_append, ← List.append_assoc, hrest]
    exact hcaught before (hbefore.trans hfront) hstill hnew
  · intro hleft first hfront
    refine accounted_of_covered (htended first) (covered_run scheme config a first ?_)
    intro before hbefore hnew
    exact caughtUp_of_no_task (htended before) (hleft before (hbefore.trans hfront) hnew)

end Wallet

/-! ## An atom that is lost -/

namespace Sample

open Wallet (Event)

/-- An atom arrives for an address that is no longer to be watched and is watched again, all before
the task takes a step; then the task that was told to stop is removed. -/
def rewatch : List Event :=
  [.watch address, .pump 0 address (.connected 0), .pump 0 address (.arrived issue),
    .unwatch address, .watch address, .reap 0]

/-- The wallet after these steps. -/
def rewatched : Wallet :=
  (Wallet.create scheme .standard).run rewatch

theorem handed_rewatch :
    (Wallet.create scheme .standard).collect (Wallet.handed address) rewatch = [] := by
  decide +kernel

theorem unhalted_rewatched : rewatched.Unhalted address := by
  rw [Wallet.unhalted_iff, rewatched, Wallet.ledger_run, handed_rewatch]
  rfl

end Sample

/-- The feed remembers the atom, and neither the reconcilers nor the task of the address will see
it. -/
theorem Wallet.atom_lost_between_watches :
    Sample.rewatched.isWatching Sample.address = true ∧
      Sample.rewatched.Unhalted Sample.address ∧
      ¬Sample.rewatched.Accounted Sample.address ((create Sample.scheme .standard).collect
        (handed Sample.address) Sample.rewatch) := by
  refine ⟨by decide +kernel, Sample.unhalted_rewatched, ?_⟩
  intro haccounted
  have hhandle : Sample.rewatched.handles[Sample.address]? = some 1 := by decide +kernel
  have htask : Sample.rewatched.tasks[1]? = some ⟨Sample.address, 1, false⟩ := by decide +kernel
  have hnone : Sample.rewatched.filter.waiting 1 = [] := by decide +kernel
  have hfeeds : (Sample.rewatched.filter.feeds[Sample.address]?.map fun feed =>
      (feed.pump.running, feed.pump.seen.isEmpty)) = some (true, false) := by decide +kernel
  obtain ⟨feed, hfeed, hpump⟩ := Option.map_eq_some_iff.1 hfeeds
  obtain ⟨hrunning, hsome⟩ := Prod.mk.inj hpump
  -- Nothing was given and nothing waits, so the feed could remember nothing.
  refine Std.ExtTreeSet.isEmpty_eq_false_iff.1 hsome
    (Std.ExtTreeSet.eq_empty_iff_forall_not_mem.2 fun id hid => ?_)
  obtain ⟨x, hx, -⟩ := haccounted 1 _ feed hhandle htask hfeed hrunning id hid
  rw [Sample.handed_rewatch, hnone] at hx
  contradiction

end ParticleLedger
