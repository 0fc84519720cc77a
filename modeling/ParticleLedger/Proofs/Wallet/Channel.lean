import ParticleLedger.Proofs.Wallet.Run

/-!
# The way of an atom from the feed to the reconcilers

An address that is watched, and not given up by its user, has at most one forwarding task at a time.
While there is one it reads the only subscription of the feed of the address; when the feed gives up,
that is the last thing the task reads, and the next watch starts a new feed that remembers nothing of
the old one. So what a feed delivers is handed over whole and in order, over all feeds of the address
(`Channel`), and a valid atom that reaches a pump is delivered unless a copy of it was before.

Main statements: `carries_of_pump`, `carries_of_forward` and `Wiring.Channel.carries` (what one step
does to what is under way).
-/

namespace ParticleLedger

open Std (ExtTreeMap)

/-! ## The only subscription of a feed -/

namespace DeliveryFilter

variable {f : DeliveryFilter} {a b : Address} {sub id now : Nat} {pump : Pump}
  {inbox rest : List FeedEvent} {e : TransportEvent} {x : Atom}

/-- The subscription has the feed of the address for itself and has not come to its end. -/
structure Serves (f : DeliveryFilter) (a : Address) (sub : Nat) (pump : Pump)
    (inbox : List FeedEvent) : Prop where
  subscription : f.subscriptions[sub]? = some ⟨a, inbox, false⟩
  feed : f.feeds[a]? = some ⟨pump, [sub]⟩
  elsewhere : ∀ b, f.Member b sub → b = a

/-- No feed of the address runs. -/
def Stopped (f : DeliveryFilter) (a : Address) : Prop :=
  ∀ feed, f.feeds[a]? = some feed → feed.pump.running = false

namespace Serves

theorem subscribe (h : f.Serves a sub pump inbox) (hsub : sub < f.opened) (hb : b ≠ a) :
    (f.subscribe b).Serves a sub pump inbox where
  subscription := by
    rw [getElem?_subscriptions_subscribe, if_neg (by omega), h.subscription]
  feed := by
    rw [getElem?_feeds_subscribe, if_neg hb.symm, h.feed]
    rfl
  elsewhere c hc := by
    rcases member_subscribe hc with hc | ⟨-, hnew⟩
    · exact h.elsewhere c hc
    · omega

theorem unsubscribe (h : f.Serves a sub pump inbox) (hid : id ≠ sub) :
    (f.unsubscribe id).Serves a sub pump inbox where
  subscription := by
    rw [getElem?_subscriptions_unsubscribe, if_neg hid.symm, h.subscription]
  feed := by
    have hleave : Feed.leave ⟨pump, [sub]⟩ id = ⟨pump, [sub]⟩ := by
      simp [Feed.leave, hid.symm]
    rw [getElem?_feeds_unsubscribe, h.feed, Option.map_some, hleave, ite_self]
  elsewhere c hc := h.elsewhere c (member_unsubscribe hc)

theorem next_other (h : f.Serves a sub pump inbox) (hid : id ≠ sub) :
    (f.next id).1.Serves a sub pump inbox where
  subscription := by
    rw [getElem?_subscriptions_next, if_neg hid.symm, h.subscription]
  feed := by rw [feeds_next, h.feed]
  elsewhere c hc := h.elsewhere c (member_next hc)

/-- What the subscription answers. -/
theorem snd_next (h : f.Serves a sub pump inbox) :
    (f.next sub).2 = (Subscription.next ⟨a, inbox, false⟩).2 := by
  simp [DeliveryFilter.next, h.subscription]

theorem next_atom (h : f.Serves a sub pump (.atom x :: rest)) :
    (f.next sub).1.Serves a sub pump rest where
  subscription := by
    rw [getElem?_subscriptions_next, if_pos rfl, h.subscription]
    rfl
  feed := by rw [feeds_next, h.feed]
  elsewhere c hc := h.elsewhere c (member_next hc)

theorem handle_other (h : f.Serves a sub pump inbox) (hb : b ≠ a) :
    (f.handle now b e).Serves a sub pump inbox where
  subscription := by
    rw [getElem?_subscriptions_handle, h.subscription]
    cases hfeed : f.feeds[b]? with
    | none => rfl
    | some feed =>
      have hcount : feed.members.count sub = 0 :=
        List.count_eq_zero.2 fun hmem => hb (h.elsewhere b ⟨feed, hfeed, hmem⟩)
      cases htold : (feed.pump.handle f.policy f.validator now e).told with
      | none => simp only [htold]
      | some event => simp [htold, hcount]
  feed := by
    rw [getElem?_feeds_handle, h.feed, Option.map_some, if_neg hb.symm]
  elsewhere c hc := h.elsewhere c (member_handle hc)

/-- What the pump of the feed says is put into the inbox. -/
theorem handle (h : f.Serves a sub pump inbox) : (f.handle now a e).Serves a sub
    (pump.handle f.policy f.validator now e).pump
    (inbox ++ (pump.handle f.policy f.validator now e).told.toList) where
  subscription := by
    rw [getElem?_subscriptions_handle, h.feed, h.subscription]
    cases htold : (pump.handle f.policy f.validator now e).told with
    | none => simp [htold]
    | some event => simp [htold]
  feed := by
    rw [getElem?_feeds_handle, h.feed, Option.map_some, if_pos rfl]
  elsewhere c hc := h.elsewhere c (member_handle hc)

end Serves

namespace Stopped

theorem subscribe_other (h : f.Stopped a) (hb : b ≠ a) : (f.subscribe b).Stopped a := by
  intro feed hfeed
  rw [getElem?_feeds_subscribe, if_neg hb.symm] at hfeed
  exact h feed (Option.filter_eq_some_iff.1 hfeed).1

theorem unsubscribe (h : f.Stopped a) : (f.unsubscribe id).Stopped a := by
  intro feed hfeed
  rw [getElem?_feeds_unsubscribe] at hfeed
  obtain ⟨old, hold, rfl⟩ := Option.map_eq_some_iff.1 hfeed
  split
  · simp only [Feed.leave]
    split
    · rfl
    · exact h old hold
  · exact h old hold

theorem next (h : f.Stopped a) : (f.next id).1.Stopped a := by
  rwa [Stopped, feeds_next]

theorem handle (h : f.Stopped a) : (f.handle now b e).Stopped a := by
  intro feed hfeed
  rw [getElem?_feeds_handle] at hfeed
  obtain ⟨old, hold, rfl⟩ := Option.map_eq_some_iff.1 hfeed
  split
  · have hstopped := h old hold
    have hdoes := old.pump.does_handle f.policy f.validator now e
    generalize old.pump.handle f.policy f.validator now e = outcome at hdoes
    cases hdoes with
    | silent _ _ hrunning => rw [hrunning, hstopped]
    | delivers _ _ _ _ _ hrunning => rw [hrunning, hstopped]
    | givesUp _ _ _ hend => exact hend
  · exact h old hold

/-- A new subscription gets a new feed for itself. -/
theorem subscribe (h : f.Stopped a) (hopened : ∀ b j, f.Member b j → j < f.opened) :
    (f.subscribe a).Serves a f.opened .start [] where
  subscription := by
    rw [getElem?_subscriptions_subscribe, if_pos rfl]
    rfl
  feed := by
    rw [getElem?_feeds_subscribe, if_pos rfl, feedToJoin_of_not_joinable]
    · rfl
    · intro feed hfeed
      simp [Feed.joinable, h feed hfeed]
  elsewhere b hb := by
    rcases member_subscribe hb with hb | ⟨rfl, -⟩
    · exact absurd (hopened b _ hb) (Nat.lt_irrefl _)
    · rfl

end Stopped

end DeliveryFilter

/-! ## The only task of an address -/

namespace Wallet

namespace Wiring

variable {c c' : Wiring} {a : Address} {e : Event} {n sub : Nat} {pump : Pump}
  {inbox : List FeedEvent}

/-- Subscriptions and tasks are numbered in the order in which they come. -/
structure Numbered (c : Wiring) : Prop where
  task_lt : ∀ (n : Nat) (t : ForwardingTask), c.tasks[n]? = some t →
    n < c.spawned ∧ t.subscription < c.filter.opened
  handle_lt : ∀ (a : Address) (n : Nat), c.handles[a]? = some n → n < c.spawned
  member_lt : ∀ a j, c.filter.Member a j → j < c.filter.opened

theorem Numbered.step (h : c.Numbered) (hstep : c.Step e c') : c'.Numbered where
  task_lt n t ht := by
    rcases hstep.task_origin ht with ⟨before, hbefore, -, hsub⟩ | ⟨a, rfl, -, rfl, rfl⟩
    · obtain ⟨hn, hlt⟩ := h.task_lt n before hbefore
      have hspawned := hstep.spawned_le
      have hopened := hstep.opened_le
      omega
    · cases hstep with
      | stays => exact absurd (h.task_lt _ _ ht).1 (Nat.lt_irrefl _)
      | starts => exact ⟨Nat.lt_succ_self _, Nat.lt_succ_self _⟩
  handle_lt a n hn := by
    rcases hstep.handle_origin hn with hbefore | ⟨rfl, rfl⟩
    · exact Nat.lt_of_lt_of_le (h.handle_lt a n hbefore) hstep.spawned_le
    · cases hstep with
      | stays => exact absurd (h.handle_lt _ _ hn) (Nat.lt_irrefl _)
      | starts => exact Nat.lt_succ_self _
  member_lt b j hj := by
    have hold : c.filter.Member b j → j < c'.filter.opened :=
      fun hj => Nat.lt_of_lt_of_le (h.member_lt b j hj) hstep.opened_le
    cases hstep with
    | stays => exact hold hj
    | starts =>
      rcases DeliveryFilter.member_subscribe hj with hj | ⟨-, rfl⟩
      · exact hold hj
      · exact Nat.lt_succ_self _
    | stops => exact hold hj
    | reaps => exact hold (DeliveryFilter.member_unsubscribe hj)
    | reads => exact hold (DeliveryFilter.member_next hj)
    | ends => exact hold (DeliveryFilter.member_next (DeliveryFilter.member_unsubscribe hj))
    | meets => exact hold (DeliveryFilter.member_handle hj)

/-- No task forwards the atoms of the address. -/
structure Unstaffed (c : Wiring) (a : Address) : Prop where
  tasks : ∀ (n : Nat) (t : ForwardingTask), c.tasks[n]? = some t → t.address ≠ a
  handle : ∀ n : Nat, c.handles[a]? = some n → c.tasks[n]? = none

/-- One task forwards the atoms of the address; no other reads its subscription. -/
structure Staffed (c : Wiring) (a : Address) (n sub : Nat) : Prop where
  task : c.tasks[n]? = some ⟨a, sub, false⟩
  others : ∀ (m : Nat) (t : ForwardingTask), m ≠ n → c.tasks[m]? = some t →
    t.address ≠ a ∧ t.subscription ≠ sub
  handle_iff : ∀ b : Address, c.handles[b]? = some n ↔ b = a

theorem Staffed.watching (h : c.Staffed a n sub) : c.watching a = true := by
  simp [Wiring.watching, (h.handle_iff a).2 rfl, ExtTreeMap.contains_eq_isSome_getElem?, h.task]

/-- A task that was told to stop is not the one that serves the address. -/
theorem Staffed.ne_of_aborted (h : c.Staffed a n sub) {m : Nat} {t : ForwardingTask}
    (ht : c.tasks[m]? = some t) (haborted : t.aborted) : m ≠ n := by
  rintro rfl
  rw [h.task, Option.some_inj] at ht
  simp [← ht] at haborted

/-- Only watching the address gives it a task. -/
theorem Unstaffed.step (h : c.Unstaffed a) (hnum : c.Numbered) (hstep : c.Step e c')
    (hwatch : e ≠ .watch a) : c'.Unstaffed a where
  tasks n t ht := by
    rcases hstep.task_origin ht with ⟨before, hbefore, haddress, -⟩ | ⟨b, rfl, -, -, rfl⟩
    · exact haddress ▸ h.tasks n before hbefore
    · exact fun hb => hwatch (hb ▸ rfl)
  handle n hn := by
    rcases hstep.handle_origin hn with hbefore | ⟨rfl, -⟩
    · rw [Option.eq_none_iff_forall_ne_some]
      intro t ht
      rcases hstep.task_origin ht with ⟨before, hold, -, -⟩ | ⟨b, -, -, rfl, -⟩
      · rw [h.handle n hbefore] at hold
        contradiction
      · exact absurd (hnum.handle_lt a _ hbefore) (Nat.lt_irrefl _)
    · exact absurd rfl hwatch

/-- Watching an address that has no task gives it one, with a subscription of its own. -/
theorem Unstaffed.starts (h : c.Unstaffed a) (hnum : c.Numbered) :
    Staffed ⟨c.filter.subscribe a, c.tasks.insert c.spawned ⟨a, c.filter.opened, false⟩,
      c.handles.insert a c.spawned, c.spawned + 1⟩ a c.spawned c.filter.opened where
  task := by simp
  others m t hm ht := by
    simp only [ExtTreeMap.getElem?_insert, Nat.compare_eq_eq, if_neg (Ne.symm hm)] at ht
    exact ⟨h.tasks m t ht, Nat.ne_of_lt (hnum.task_lt m t ht).2⟩
  handle_iff b := by
    simp only [ExtTreeMap.getElem?_insert, Std.compare_eq_iff_eq]
    by_cases hb : a = b
    · simp [hb]
    · rw [if_neg hb]
      exact ⟨fun hold => absurd (hnum.handle_lt b _ hold) (Nat.lt_irrefl _),
        fun hba => absurd hba.symm hb⟩

/-- When its task is gone an address has none. -/
theorem Staffed.ends (h : c.Staffed a n sub) {filter : DeliveryFilter} :
    Unstaffed ⟨filter, c.tasks.erase n, c.handles, c.spawned⟩ a where
  tasks m t ht := by
    simp only [ExtTreeMap.getElem?_erase, Nat.compare_eq_eq] at ht
    split at ht
    · contradiction
    · next hm => exact (h.others m t (Ne.symm hm) ht).1
  handle m hm := by
    have hn : m = n := Option.some_inj.1 (hm.symm.trans ((h.handle_iff a).2 rfl))
    simp [hn]

/-- The step is none of the task and the pump that serve the address, and leaves it watched. -/
structure Apart (e : Event) (a : Address) (n : Nat) : Prop where
  unwatch_ne : e ≠ .unwatch a
  forward_ne : e ≠ .forward n
  pump_ne : ∀ now met, e ≠ .pump now a met

theorem Staffed.step (h : c.Staffed a n sub) (hnum : c.Numbered) (hstep : c.Step e c')
    (hapart : Apart e a n) : c'.Staffed a n sub where
  task := by
    cases hstep with
    | stays => exact h.task
    | starts =>
      have hn := (hnum.task_lt n _ h.task).1
      simp [ExtTreeMap.getElem?_insert, Nat.ne_of_gt hn, h.task]
    | @stops b m hm =>
      have hne : m ≠ n := by
        rintro rfl
        exact hapart.unwatch_ne (by rw [(h.handle_iff b).1 hm])
      simp [ExtTreeMap.getElem?_modify, hne, h.task]
    | @reaps m t ht haborted =>
      simp [ExtTreeMap.getElem?_erase, h.ne_of_aborted ht haborted, h.task]
    | reads => exact h.task
    | @ends m =>
      have hne : m ≠ n := fun hm => hapart.forward_ne (hm ▸ rfl)
      simp [ExtTreeMap.getElem?_erase, hne, h.task]
    | meets => exact h.task
  others m t hm ht := by
    rcases hstep.task_origin ht with
      ⟨before, hbefore, haddress, hsubscription⟩ | ⟨b, -, hnew, -, rfl⟩
    · rw [← haddress, ← hsubscription]
      exact h.others m before hm hbefore
    · refine ⟨?_, Nat.ne_of_gt (hnum.task_lt n _ h.task).2⟩
      rintro rfl
      simp [h.watching] at hnew
  handle_iff b := by
    constructor
    · intro hb
      rcases hstep.handle_origin hb with hb | ⟨-, rfl⟩
      · exact (h.handle_iff b).1 hb
      · exact absurd (hnum.task_lt _ _ h.task).1 (Nat.lt_irrefl _)
    · rintro rfl
      have hhandle := (h.handle_iff b).2 rfl
      cases hstep with
      | @starts d hnew =>
        have hne : d ≠ b := by
          rintro rfl
          simp [h.watching] at hnew
        simp [ExtTreeMap.getElem?_insert, hne, hhandle]
      | @stops d m =>
        have hne : d ≠ b := fun hd => hapart.unwatch_ne (hd ▸ rfl)
        simp [ExtTreeMap.getElem?_erase, hne, hhandle]
      | _ => exact hhandle

theorem Staffed.serves_step (h : c.Staffed a n sub) (hnum : c.Numbered)
    (hfeed : c.filter.Serves a sub pump inbox) (hstep : c.Step e c') (hapart : Apart e a n) :
    c'.filter.Serves a sub pump inbox := by
  have hothers : ∀ {m : Nat} {t : ForwardingTask}, m ≠ n → c.tasks[m]? = some t →
      t.subscription ≠ sub := fun hm ht => (h.others _ _ hm ht).2
  cases hstep with
  | stays => exact hfeed
  | @starts b hnew =>
    refine hfeed.subscribe (hnum.task_lt n _ h.task).2 ?_
    rintro rfl
    simp [h.watching] at hnew
  | stops => exact hfeed
  | reaps ht haborted => exact hfeed.unsubscribe (hothers (h.ne_of_aborted ht haborted) ht)
  | reads ht => exact hfeed.next_other (hothers (fun hm => hapart.forward_ne (hm ▸ rfl)) ht)
  | ends ht =>
    have hne := hothers (fun hm => hapart.forward_ne (hm ▸ rfl)) ht
    exact (hfeed.next_other hne).unsubscribe hne
  | @meets now b met => exact hfeed.handle_other fun hb => hapart.pump_ne now met (by rw [hb])

/-! ## What is under way -/

/-- After its atoms a feed says nothing more, or, once its pump has stopped, that it gave up. -/
inductive Ending (pump : Pump) : List FeedEvent → Prop
  | silent : Ending pump []
  | gaveUp {attempts : UInt32} {last : String} (hstopped : pump.running = false) :
      Ending pump [.exhausted attempts last]

theorem Ending.eq_nil {tail : List FeedEvent} (h : Ending pump tail) (hrunning : pump.running) :
    tail = [] := by
  cases h with
  | silent => rfl
  | gaveUp hstopped =>
    rw [hstopped] at hrunning
    contradiction

/-- A task forwards the atoms of the address, the queue waits in its subscription, and the pump of the
feed remembers only what was delivered. -/
structure Live (c : Wiring) (a : Address) (n sub : Nat) (pump : Pump) (tail : List FeedEvent)
    (got queue : List Atom) : Prop where
  task : c.Staffed a n sub
  feed : c.filter.Serves a sub pump (queue.map .atom ++ tail)
  ending : Ending pump tail
  seen : ∀ id ∈ pump.seen, ∃ y ∈ got, y.id = id

/-- What is under way to the reconcilers of an address, of all that was ever delivered for it
(`got`): nothing while no task forwards its atoms, and otherwise what waits for that task. -/
inductive Channel (c : Wiring) (a : Address) (got queue : List Atom) : Prop
  | resting (hqueue : queue = []) (htasks : c.Unstaffed a) (hfeed : c.filter.Stopped a)
  | live {n sub : Nat} {pump : Pump} {tail : List FeedEvent}
      (h : c.Live a n sub pump tail got queue)

end Wiring

open Wiring (Channel Live Ending Apart)

variable {w : Wallet} {a : Address} {e : Event} {n sub : Nat} {pump : Pump}
  {got queue : List Atom} {scheme : SignatureScheme}

/-- What a step does to what is under way: the atoms that are delivered join it at its end, and those
handed over leave it at its front. Delivered is what is heard and authorised, unless a copy of it has
been delivered before. -/
def Carries (scheme : SignatureScheme) (a : Address) (w : Wallet) (e : Event)
    (got queue : List Atom) : Prop :=
  ∃ new rest, (w.after e).wiring.Channel a (got ++ new) rest ∧
    queue ++ new = w.handed a e ++ rest ∧
    (∀ y ∈ new, y ∈ w.heard a e ∧ y.Authorised scheme) ∧
    ∀ x ∈ w.heard a e, x.Authorised scheme → ∃ y ∈ got ++ new, y.id = x.id

/-- A step that neither delivers nor hands over anything. -/
theorem Carries.of_quiet (h : (w.after e).wiring.Channel a got queue) (hhanded : w.handed a e = [])
    (hheard : w.heard a e = []) : Carries scheme a w e got queue :=
  ⟨[], queue, by simpa using h, by simp [hhanded], by simp, by simp [hheard]⟩

theorem heard_of_stopped (h : w.filter.Stopped a) : w.heard a e = [] := by
  cases e with
  | pump now b met =>
    simp only [heard]
    split
    · cases hfeed : w.filter.feeds[a]? with
      | none => rfl
      | some feed => simp [Pump.heard?_of_stopped (h feed hfeed)]
    · rfl
  | _ => rfl

theorem heard_of_apart (h : Apart e a n) : w.heard a e = [] := by
  cases e with
  | pump now b met =>
    have hb : b ≠ a := fun hb => h.pump_ne now met (by rw [hb])
    simp [heard, hb]
  | _ => rfl

/-- While nobody forwards the atoms of an address, a step leaves it so or starts a feed. -/
theorem carries_of_resting (hnum : w.wiring.Numbered) (htasks : w.wiring.Unstaffed a)
    (hfeed : w.filter.Stopped a) : Carries scheme a w e got [] := by
  refine .of_quiet ?_ (handed_eq_nil fun n t _ ht => htasks.tasks n t ht) (heard_of_stopped hfeed)
  have hstep := step_after w e
  by_cases hwatch : e = .watch a
  · subst hwatch
    generalize (w.after (.watch a)).wiring = c' at hstep
    cases hstep with
    | stays => exact .resting rfl htasks hfeed
    | starts =>
      exact .live ⟨htasks.starts hnum, hfeed.subscribe hnum.member_lt, .silent, by simp [Pump.start]⟩
  · refine .resting rfl (htasks.step hnum hstep hwatch) ?_
    generalize (w.after e).wiring = c' at hstep
    cases hstep with
    | stays => exact hfeed
    | @starts b => exact hfeed.subscribe_other fun hb => hwatch (hb ▸ rfl)
    | stops => exact hfeed
    | reaps => exact hfeed.unsubscribe
    | reads => exact hfeed.next
    | ends => exact hfeed.next.unsubscribe
    | meets => exact hfeed.handle

section Live

variable {tail : List FeedEvent}

/-- The task of the address takes the first atom under way, or finds nothing, or ends with the
feed. -/
theorem carries_of_forward (h : w.wiring.Live a n sub pump tail got queue)
    (hok : ∀ x ∈ queue, w.registry.violation? a x = none) :
    Carries scheme a w (.forward n) got queue := by
  have hforwards := forwards_after w n
  have hsame : ∀ {t : ForwardingTask}, w.tasks[n]? = some t → t = ⟨a, sub, false⟩ :=
    fun ht => Option.some_inj.1 (ht.symm.trans h.task.task)
  have hanswer : (w.filter.next sub).2 =
    (Subscription.next ⟨a, queue.map .atom ++ tail, false⟩).2 := h.feed.snd_next
  have hfirst : ∀ {x : Atom}, (w.filter.next sub).2 = .ready (.ok x) →
      ∃ rest, queue = x :: rest := by
    intro x hx
    rw [hanswer, Subscription.next_eq_ok_iff] at hx
    obtain ⟨-, rest, hinbox⟩ := hx
    cases queue with
    | nil => cases h.ending <;> simp at hinbox
    | cons y queue =>
      obtain ⟨rfl, -⟩ : y = x ∧ queue.map FeedEvent.atom ++ tail = rest := by simpa using hinbox
      exact ⟨queue, rfl⟩
  simp only [Carries, handed, show w.heard a (.forward n) = [] from rfl]
  generalize w.taken? n = taken at hforwards ⊢
  generalize w.after (.forward n) = w' at hforwards ⊢
  cases hforwards with
  | rests => exact ⟨[], queue, .live (by simpa using h), by simp⟩
  | passes ht hx =>
    obtain rfl := hsame ht
    obtain ⟨rest, rfl⟩ := hfirst hx
    exact ⟨[], rest, .live ⟨⟨h.task.task, h.task.others, h.task.handle_iff⟩, h.feed.next_atom,
      h.ending, by simpa using h.seen⟩, by simp⟩
  | @fails t x cause ht hx hviolation =>
    obtain rfl := hsame ht
    obtain ⟨rest, rfl⟩ := hfirst hx
    rw [hok x (by simp)] at hviolation
    contradiction
  | ends ht hnone hmore =>
    obtain rfl := hsame ht
    cases queue with
    | cons x rest => exact absurd hanswer (hnone x)
    | nil =>
      cases h.ending with
      | silent => exact absurd hanswer hmore
      | gaveUp hstopped =>
        have hfeeds : w.filter.Stopped a := by
          intro feed hget
          obtain rfl : feed = ⟨pump, [sub]⟩ := Option.some_inj.1 (hget.symm.trans h.feed.feed)
          exact hstopped
        exact ⟨[], [], .resting rfl h.task.ends hfeeds.next.unsubscribe, by simp⟩

/-- The pump of the address delivers an atom, or drops what it hears, or gives up. -/
theorem carries_of_pump {now : Nat} {met : TransportEvent}
    (hvalidator : w.filter.validator = signatureValidator scheme)
    (h : w.wiring.Live a n sub pump tail got queue) :
    Carries scheme a w (.pump now a met) got queue := by
  have hstaffed : (w.after (.pump now a met)).wiring.Staffed a n sub :=
    ⟨h.task.task, h.task.others, h.task.handle_iff⟩
  have hserves : (w.after (.pump now a met)).filter.Serves a sub _ _ := h.feed.handle
  have hheard : w.heard a (.pump now a met) = (pump.heard? met).toList := by
    have hfeed : w.filter.feeds[a]? = some ⟨pump, [sub]⟩ := h.feed.feed
    simp [heard, hfeed]
  have hdoes := pump.does_handle w.filter.policy w.filter.validator now met
  simp only [Carries, hheard, show w.handed a (.pump now a met) = [] from rfl]
  change (w.after (.pump now a met)).filter.Serves a sub
    (pump.handle w.filter.policy w.filter.validator now met).pump
    (_ ++ (pump.handle w.filter.policy w.filter.validator now met).told.toList) at hserves
  generalize pump.handle w.filter.policy w.filter.validator now met = outcome at hserves hdoes
  cases hdoes with
  | silent htold hsame hrunning hdropped =>
    rw [htold, Option.toList_none, List.append_nil] at hserves
    have hending : Ending outcome.pump tail := by
      cases h.ending with
      | silent => exact .silent
      | gaveUp hstopped => exact .gaveUp (hrunning.trans hstopped)
    refine ⟨[], queue, .live ⟨hstaffed, hserves, hending, ?_⟩, by simp, by simp, ?_⟩
    · simpa [hsame] using h.seen
    · intro x hx hsigned
      rw [List.append_nil]
      rcases hdropped x (Option.mem_toList.1 hx) with hknown | hinvalid
      · exact h.seen x.id hknown
      · rw [hvalidator] at hinvalid
        exact absurd (signatureValidator_eq_ok_iff.2 hsigned) hinvalid
  | @delivers x htold hmet hnew hvalid hadded hrunning =>
    have hopened : pump.running = true := by
      by_contra hstopped
      rw [Pump.heard?_of_stopped (by simpa using hstopped)] at hmet
      contradiction
    obtain rfl := h.ending.eq_nil hopened
    have hinbox : queue.map FeedEvent.atom ++ [] ++ outcome.told.toList =
        (queue ++ [x]).map .atom ++ [] := by simp [htold]
    rw [hinbox] at hserves
    refine ⟨[x], queue ++ [x], .live ⟨hstaffed, hserves, .silent, ?_⟩, rfl, ?_, ?_⟩
    · intro id hid
      rw [hadded, Std.ExtTreeSet.mem_insert, Std.compare_eq_iff_eq] at hid
      rcases hid with rfl | hid
      · exact ⟨x, by simp, rfl⟩
      · obtain ⟨y, hy, hyid⟩ := h.seen id hid
        exact ⟨y, by simp [hy], hyid⟩
    · rw [hvalidator, signatureValidator_eq_ok_iff] at hvalid
      simp [hmet, hvalid]
    · intro y hy _
      rw [hmet, Option.toList_some, List.mem_singleton] at hy
      exact ⟨x, by simp, hy ▸ rfl⟩
  | @givesUp attempts last htold hsame hrunning hstopped hmet =>
    obtain rfl := h.ending.eq_nil hrunning
    have hinbox : queue.map FeedEvent.atom ++ [] ++ outcome.told.toList =
        queue.map .atom ++ [.exhausted attempts last] := by simp [htold]
    rw [hinbox] at hserves
    refine ⟨[], queue, .live ⟨hstaffed, hserves, .gaveUp hstopped, ?_⟩, by simp, by simp, ?_⟩
    · simpa [hsame] using h.seen
    · simp [hmet]

end Live

/-- What a step does to what is under way, as long as the address stays watched and no violation is
met. -/
theorem Wiring.Channel.carries (h : w.wiring.Channel a got queue) (hnum : w.wiring.Numbered)
    (hvalidator : w.filter.validator = signatureValidator scheme) (hkeep : e ≠ .unwatch a)
    (hok : ∀ x ∈ queue, w.registry.violation? a x = none) : Carries scheme a w e got queue := by
  cases h with
  | resting hqueue htasks hfeed =>
    subst hqueue
    exact carries_of_resting hnum htasks hfeed
  | @live n sub pump tail hlive =>
    by_cases hforward : e = .forward n
    · subst hforward
      exact carries_of_forward hlive hok
    by_cases hpump : ∃ now met, e = .pump now a met
    · obtain ⟨now, met, rfl⟩ := hpump
      exact carries_of_pump hvalidator hlive
    · have hapart : Apart e a n := ⟨hkeep, hforward, fun now met he => hpump ⟨now, met, he⟩⟩
      have hstep := step_after w e
      refine .of_quiet (.live ⟨hlive.task.step hnum hstep hapart,
        hlive.task.serves_step hnum hlive.feed hstep hapart, hlive.ending, hlive.seen⟩)
        (handed_eq_nil ?_) (heard_of_apart hapart)
      rintro m t rfl ht
      exact (hlive.task.others m t (fun hm => hforward (hm ▸ rfl)) ht).1

end Wallet

end ParticleLedger
