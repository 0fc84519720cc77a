import ParticleLedger.Proofs.Atom.Plain
import ParticleLedger.Proofs.Reconciler.Convergence
import ParticleLedger.Proofs.Wallet.Channel
import ParticleLedger.Proofs.Wallet.Folds
import ParticleLedger.Proofs.Wallet.Signed

/-!
# A wallet that watches an address learns its coins

Connections come and go, atoms arrive in any order and any number of times, some of them badly
signed, and feeds give up and are started anew. If the valid atoms that arrived are free of
conflicts, none is lost on the way: once nothing is left to do, the unspent coins of the address, and
the holdings published for it, are those that the causally complete part of these atoms leaves.

Main statements: `Carried.step` and `carried_run` (copies of all valid atoms are handed over or under
way), `Wiring.Channel.queue_eq_nil` and `watch_converges`.
-/

namespace ParticleLedger

open Registry (everything)

/-! ## No violations -/

/-- An atom meets no violation for an address if it meets none in its reconciler. -/
theorem Registry.WellScoped.violation?_eq_none {reg : Registry} {a : Address} {x : Atom}
    (h : reg.WellScoped) (hnone : ((reg.ledger a).accept x).error = none) :
    reg.violation? a x = none := by
  rw [violation?, List.findSome?_eq_none_iff]
  intro r hr
  simp only [ofAddress, List.mem_filter, List.mem_map, decide_eq_true_eq] at hr
  obtain ⟨⟨⟨scope, r⟩, hmem, rfl⟩, haddress⟩ := hr
  have hget : reg.get? scope = some r :=
    Std.ExtTreeMap.mem_toList_iff_getElem?_eq_some.1 hmem
  obtain ⟨rfl, hfilter⟩ := h scope r hget
  have hscope : r.scope = everything a := by
    cases hr : r.scope with
    | mk address filter => simp_all [everything]
  rw [hscope] at hget
  rwa [ledger_of_get? hget, Reconciler.accept_alone] at hnone

namespace Wallet

open Wiring (Channel)

variable {scheme : SignatureScheme} {config : Config} {w : Wallet} {a : Address} {e : Event}
  {S : Set Atom} {heard handed queue : List Atom}

/-! ## Nothing valid is lost -/

/-- Of the atoms heard for an address copies of all that are authorised, and of no others, have been
handed to its reconcilers or are under way to them. -/
structure Carried (scheme : SignatureScheme) (c : Wiring) (a : Address)
    (heard handed queue : List Atom) : Prop where
  channel : c.Channel a (handed ++ queue) queue
  genuine : ∀ y ∈ handed ++ queue, y ∈ heard ∧ y.Authorised scheme
  complete : ∀ x ∈ heard, x.Authorised scheme → ∃ y ∈ handed ++ queue, y.id = x.id

theorem Carried.step (h : Carried scheme w.wiring a heard handed queue)
    (hcarries : Carries scheme a w e (handed ++ queue) queue) :
    ∃ rest, Carried scheme (w.after e).wiring a (heard ++ w.heard a e) (handed ++ w.handed a e)
      rest := by
  obtain ⟨new, rest, hchannel, heq, hnew, hcomplete⟩ := hcarries
  have hall : handed ++ w.handed a e ++ rest = handed ++ queue ++ new := by
    rw [List.append_assoc, ← heq, List.append_assoc]
  refine ⟨rest, ⟨hall ▸ hchannel, fun y hy => ?_, fun x hx hsigned => ?_⟩⟩
  · rw [hall] at hy
    rcases List.mem_append.1 hy with hy | hy
    · exact ⟨List.mem_append_left _ (h.genuine y hy).1, (h.genuine y hy).2⟩
    · exact ⟨List.mem_append_right _ (hnew y hy).1, (hnew y hy).2⟩
  · rw [hall]
    rcases List.mem_append.1 hx with hx | hx
    · obtain ⟨y, hy, hid⟩ := h.complete x hx hsigned
      exact ⟨y, List.mem_append_left _ hy, hid⟩
    · exact hcomplete x hx hsigned

theorem numbered_run (scheme : SignatureScheme) (config : Config) (events : List Event) :
    ((create scheme config).run events).wiring.Numbered := by
  induction events using List.reverseRecOn with
  | nil =>
    refine ⟨fun n t h => ?_, fun a n h => ?_, fun a j h => ?_⟩
    · simp [create, wiring] at h
    · simp [create, wiring] at h
    · simp [create, wiring, DeliveryFilter.empty, DeliveryFilter.Member] at h
  | append_singleton events e ih =>
    rw [run_concat]
    exact ih.step (step_after _ e)

/-- As long as what is heard and valid is free of conflicts and the address stays watched, copies of
all of it are handed over or under way. -/
theorem carried_run {events : List Event} (hnames : S.InjOn Atom.id)
    (hfree : (everything a).ConflictFree S) (hkeep : .unwatch a ∉ events)
    (hS : ∀ x ∈ (create scheme config).collect (Wallet.heard a) events, x.Authorised scheme →
      x.bare ∈ S) :
    ∃ queue, Carried scheme ((create scheme config).run events).wiring a
      ((create scheme config).collect (Wallet.heard a) events)
      ((create scheme config).collect (Wallet.handed a) events) queue := by
  induction events using List.reverseRecOn with
  | nil =>
    refine ⟨[], .resting rfl ⟨fun n t h => ?_, fun n h => ?_⟩ fun feed h => ?_, ?_, ?_⟩
    · simp [create, wiring] at h
    · simp [create, wiring] at h
    · simp [create, wiring, DeliveryFilter.empty] at h
    · simp [collect]
    · simp [collect]
  | append_singleton events e ih =>
    rw [run_concat, collect_concat, collect_concat]
    rw [List.mem_append, not_or] at hkeep
    rw [collect_concat] at hS
    obtain ⟨queue, hcarried⟩ := ih hkeep.1 fun x hx => hS x (List.mem_append_left _ hx)
    refine hcarried.step (hcarried.channel.carries (numbered_run scheme config events)
      (vetted_run scheme config events).validator_eq (fun he => hkeep.2 (by simp [he])) ?_)
    intro x hx
    refine ((Grounded.create scheme config).run events).wellScoped.violation?_eq_none ?_
    -- What is under way is free of conflicts with what has been handed over.
    rw [ledger_run]
    have hok := @Reconciler.accept_ok (everything a) S
      ((create scheme config).collect (Wallet.handed a) events) x hnames hfree fun d hd => by
        have hmem : d ∈ (create scheme config).collect (Wallet.handed a) events ++ queue := by
          rcases List.mem_append.1 hd with hd | hd
          · exact List.mem_append_left _ hd
          · exact List.mem_append_right _ (List.mem_singleton.1 hd ▸ hx)
        obtain ⟨hheard, hsigned⟩ := hcarried.genuine d hmem
        exact hS d (List.mem_append_left _ hheard) hsigned
    unfold Accepted.result at hok
    split at hok
    · assumption
    · contradiction

/-! ## When nothing is left to do -/

/-- No task of the address, and not its fold of balances, can do anything. -/
structure Idle (w : Wallet) (a : Address) : Prop where
  forwarded : ∀ (n : Nat) (t : ForwardingTask), w.tasks[n]? = some t → t.address = a →
    w.forward n = none
  folded : ∀ now, w.foldBalances now a = none

/-- Folding balances keeps all tasks idle. -/
theorem forward_after_foldBalances {n now : Nat} :
    (w.after (.foldBalances now a)).forward n = none ↔ w.forward n = none := by
  have hwiring : (w.after (.foldBalances now a)).wiring = w.wiring := by
    have hstep := step_after w (.foldBalances now a)
    generalize (w.after (.foldBalances now a)).wiring = c' at hstep
    cases hstep
    rfl
  have htasks : (w.after (.foldBalances now a)).tasks = w.tasks := congrArg Wiring.tasks hwiring
  have hfilter : (w.after (.foldBalances now a)).filter = w.filter :=
    congrArg Wiring.filter hwiring
  rw [forward_eq_none_iff, forward_eq_none_iff, htasks, hfilter]

/-- A fold takes in all that waits for it. -/
theorem exists_folded (w : Wallet) (a : Address) (now : Nat) :
    ∃ k, ∀ later, (w.run (List.replicate k (.foldBalances now a))).foldBalances later a = none := by
  cases hfold : w.balances.get? a with
  | none => exact ⟨0, fun later => foldBalances_eq_none_iff.2 (by simp [hfold])⟩
  | some fold =>
    generalize hwaiting : w.registry.inbox a fold.source = waiting
    induction waiting generalizing w fold with
    | nil =>
      refine ⟨0, fun later => foldBalances_eq_none_iff.2 fun fold' hfold' => ?_⟩
      obtain rfl : fold = fold' := Option.some_inj.1 (hfold.symm.trans hfold')
      exact hwaiting
    | cons x rest ih =>
      obtain ⟨fold', hfold', hrest⟩ := inbox_after_foldBalances hfold now
      obtain ⟨k, hk⟩ := ih _ fold' hfold' (by rw [hrest, hwaiting, List.tail_cons])
      exact ⟨k + 1, hk⟩

/-- A task that has ended can do nothing. -/
theorem forward_finish {n : Nat} {t : ForwardingTask} : (w.finish n t).forward n = none := by
  simp [forward_eq_none_iff, finish]

/-- What waits for a task. -/
def waitingFor (w : Wallet) (n : Nat) : List FeedEvent :=
  ((w.tasks[n]?.bind fun t => w.filter.subscriptions[t.subscription]?).map (·.inbox)).getD []

/-- A task takes the first event that waits for it, or can do nothing more. -/
theorem waitingFor_after_forward (w : Wallet) (n : Nat) :
    (w.after (.forward n)).forward n = none ∨
      ∃ event, w.waitingFor n = event :: (w.after (.forward n)).waitingFor n := by
  have hforwards := forwards_after w n
  generalize w.taken? n = taken at hforwards
  generalize w.after (.forward n) = w' at hforwards ⊢
  cases hforwards with
  | rests hnone => exact .inl hnone
  | @passes t x ht hx =>
    obtain ⟨s, rest, hs, hopen, hinbox⟩ := DeliveryFilter.next_eq_ok hx
    have hrest := Subscription.inbox_next hopen hinbox
    exact .inr ⟨.atom x, by
      simp [waitingFor, ht, hs, hinbox, DeliveryFilter.getElem?_subscriptions_next, hrest]⟩
  | fails => exact .inl forward_finish
  | ends => exact .inl forward_finish

/-- A task takes all that waits for it, unless it ends before. -/
theorem exists_forwarded (w : Wallet) (n : Nat) :
    ∃ k, (w.run (List.replicate k (.forward n))).forward n = none := by
  generalize hwaiting : w.waitingFor n = waiting
  induction waiting generalizing w with
  | nil =>
    rcases w.waitingFor_after_forward n with hdone | ⟨event, hevent⟩
    · exact ⟨1, hdone⟩
    · rw [hwaiting] at hevent
      contradiction
  | cons first rest ih =>
    rcases w.waitingFor_after_forward n with hdone | ⟨event, hevent⟩
    · exact ⟨1, hdone⟩
    · rw [hwaiting, List.cons.injEq] at hevent
      obtain ⟨k, hk⟩ := ih (w.after (.forward n)) hevent.2.symm
      exact ⟨k + 1, hk⟩

/-- Only watching starts tasks. -/
theorem task_origin_run {events : List Event} (hwatch : ∀ e ∈ events, ∀ b, e ≠ .watch b) {n : Nat}
    {t : ForwardingTask} (ht : (w.run events).tasks[n]? = some t) :
    ∃ before, w.tasks[n]? = some before ∧ before.address = t.address := by
  induction events using List.reverseRecOn generalizing t with
  | nil => exact ⟨t, ht, rfl⟩
  | append_singleton events e ih =>
    rw [run_concat] at ht
    rcases (step_after _ e).task_origin ht with ⟨middle, hmiddle, haddress, -⟩ | ⟨b, rfl, -⟩
    · obtain ⟨before, hbefore, hsame⟩ := ih (fun e he => hwatch e (by simp [he])) hmiddle
      exact ⟨before, hbefore, hsame.trans haddress⟩
    · exact absurd rfl (hwatch _ (by simp) b)

/-- Whatever has happened, the steps of the task and of the fold are enough to get there. -/
theorem exists_idle {got : List Atom} (h : w.wiring.Channel a got queue) (now : Nat) :
    ∃ later, (∀ e ∈ later, (∃ n, e = .forward n) ∨ e = .foldBalances now a) ∧
      (w.run later).Idle a := by
  obtain ⟨n, honly⟩ : ∃ n : Nat, ∀ (m : Nat) (t : ForwardingTask), w.tasks[m]? = some t →
      t.address = a → m = n := by
    cases h with
    | resting _ htasks => exact ⟨0, fun m t ht haddress => absurd haddress (htasks.tasks m t ht)⟩
    | @live n _ _ _ hlive =>
      refine ⟨n, fun m t ht haddress => ?_⟩
      by_contra hm
      exact (hlive.task.others m t hm ht).1 haddress
  obtain ⟨k, hforwarded⟩ := exists_forwarded w n
  obtain ⟨j, hfolded⟩ := exists_folded (w.run (List.replicate k (.forward n))) a now
  have hsteps : ∀ e ∈ List.replicate k (Event.forward n) ++ List.replicate j (.foldBalances now a),
      (∃ n, e = .forward n) ∨ e = .foldBalances now a := by
    intro e he
    rcases List.mem_append.1 he with he | he
    · exact .inl ⟨n, (List.mem_replicate.1 he).2⟩
    · exact .inr (List.mem_replicate.1 he).2
  have hkept : ∀ (v : Wallet) (j : Nat), v.forward n = none →
      (v.run (List.replicate j (.foldBalances now a))).forward n = none := by
    intro v j hv
    induction j generalizing v with
    | zero => exact hv
    | succ j ih => exact ih _ (forward_after_foldBalances.2 hv)
  refine ⟨_, hsteps, ⟨fun m t ht haddress => ?_, fun later => ?_⟩⟩
  · obtain ⟨before, hbefore, hsame⟩ := task_origin_run (fun e he b hwatch => by
      rcases hsteps e he with ⟨n, rfl⟩ | rfl <;> contradiction) ht
    obtain rfl := honly m before hbefore (hsame.trans haddress)
    rw [run_append]
    exact hkept _ j hforwarded
  · rw [run_append]
    exact hfolded later

/-- Then nothing is under way. -/
theorem Wiring.Channel.queue_eq_nil {got : List Atom} (h : w.wiring.Channel a got queue)
    (hidle : w.Idle a) : queue = [] := by
  cases h with
  | resting hqueue => exact hqueue
  | @live n sub pump tail hlive =>
    have hpending := forward_eq_none_iff.1 (hidle.forwarded n _ hlive.task.task rfl) _
      hlive.task.task
    have hanswer : (w.filter.next sub).2 =
      (Subscription.next ⟨a, queue.map .atom ++ tail, false⟩).2 := hlive.feed.snd_next
    rw [hanswer] at hpending
    cases queue with
    | nil => rfl
    | cons x rest =>
      rw [Subscription.next_eq_ok_iff.2 ⟨rfl, _, rfl⟩] at hpending
      contradiction

/-- An address that was watched has a reconciler. -/
theorem knows_run {events : List Event} (hwatch : .watch a ∈ events) :
    ((create scheme config).run events).registry.Knows a := by
  induction events using List.reverseRecOn with
  | nil => simp at hwatch
  | append_singleton events e ih =>
    rw [run_concat]
    rcases List.mem_append.1 hwatch with hbefore | hlast
    · exact knows_after (ih hbefore)
    · obtain rfl := List.mem_singleton.1 hlast
      exact ((Grounded.create scheme config).run events).knows_watch

/-- If nothing is under way, copies of just the valid atoms that were heard have been handed over. -/
theorem Carried.bareAtoms_eq {c : Wiring} (h : Carried scheme c a heard handed [])
    (hnames : S.InjOn Atom.id) (hS : Atom.bare '' {x | x ∈ heard ∧ x.Authorised scheme} = S) :
    bareAtoms handed = S := by
  have hsub : ∀ y ∈ handed, y.bare ∈ S := by
    intro y hy
    rw [← hS]
    exact ⟨y, h.genuine y (by simpa using hy), rfl⟩
  ext x
  constructor
  · rintro ⟨y, hy, rfl⟩
    exact hsub y hy
  · intro hx
    obtain ⟨z, ⟨hheard, hsigned⟩, rfl⟩ : x ∈ Atom.bare '' {x | x ∈ heard ∧ x.Authorised scheme} :=
      hS ▸ hx
    obtain ⟨y, hy, hid⟩ := h.complete z hheard hsigned
    rw [List.append_nil] at hy
    exact ⟨y, hy, hnames (hsub y hy) hx hid⟩

end Wallet

/-! ## Coins that a reconciler holds -/

namespace Reconciler

variable {scope : Scope} {r : Reconciler} {t : TokenRef} {c : Coin} {history : List Atom}

theorem mem_snapshotFor_iff (h : r.view.unconsumed = LedgerView.replayAll scope history) :
    c ∈ r.snapshotFor t ↔ c.token = t ∧ r.view.unconsumed[c.id]? = some c := by
  simp only [snapshotFor, snapshot, List.mem_filter, List.mem_map, decide_eq_true_eq,
    Prod.exists, Std.ExtTreeMap.mem_toList_iff_getElem?_eq_some]
  constructor
  · rintro ⟨⟨k, d, hd, rfl⟩, ht⟩
    obtain rfl := (LedgerView.named_of_replayAll (h ▸ hd)).1
    exact ⟨ht, hd⟩
  · rintro ⟨ht, hc⟩
    exact ⟨⟨c.id, c, hc, rfl⟩, ht⟩

/-- Coins are listed once, because they stand under their names. -/
theorem nodup_snapshotFor (h : r.view.unconsumed = LedgerView.replayAll scope history) :
    (r.snapshotFor t).Nodup := by
  refine List.Nodup.filter _ (List.Nodup.map_on ?_ (nodup_toList _))
  rintro ⟨j, c⟩ hj ⟨k, d⟩ hk rfl
  rw [Std.ExtTreeMap.mem_toList_iff_getElem?_eq_some, h] at hj hk
  rw [← (LedgerView.named_of_replayAll hj).1, ← (LedgerView.named_of_replayAll hk).1]

/-- A reconciler that has settled lists the coins that the atoms it has passed on leave. -/
theorem mem_snapshotFor_of_settled {S : Set Atom} {heard : List Atom}
    (hfree : scope.ConflictFree S) (h : Settling scope S heard r.view history []) :
    c ∈ r.snapshotFor t ↔ c.token = t ∧ (∃ x ∈ bareAtoms history, (c.id, c) ∈ scope.created x) ∧
      ∀ x ∈ bareAtoms history, c.id ∉ scope.consumed x := by
  rw [mem_snapshotFor_iff h.records.unconsumed_eq, h.getElem?_unconsumed_iff hfree]
  simp [bareAtoms]

end Reconciler

theorem Wallet.unconsumed_of_get? {w : Wallet} {a : Address} {r : Reconciler} {t : TokenRef}
    (h : w.registry.get? (everything a) = some r) : w.unconsumed a t = .ok (r.snapshotFor t) := by
  simp [unconsumed, h]

/-! ## A session with two connections -/

namespace Sample

open Wallet (Event)

/-- The one signature that the scheme below accepts. -/
def stamp : Signature := ⟨Vector.replicate 64 7⟩

/-- A scheme that accepts this signature under every key. -/
def scheme : SignatureScheme where
  publicKey _ := address.key
  sign _ _ := stamp
  fault? _ _ s := if s = stamp then none else some .mismatch

/-- An unsigned atom that spends a coin arrives before the one that creates it. Then the connection is
lost, and the atom that creates the coin arrives on the next one. -/
def arrivals : List Event :=
  [.watch address, .pump 0 address (.connected 0), .pump 0 address (.arrived spend),
    .pump 0 address .ended, .pump 1000 address .elapsed, .pump 1000 address (.connected 1),
    .pump 1000 address (.arrived issue)]

/-- Then the task and the fold of the account take their steps. -/
def session : List Event :=
  arrivals ++ [.forward 0, .foldBalances 1000 address]

/-- The wallet after the arrivals. -/
def wallet : Wallet :=
  (Wallet.create scheme .standard).run arrivals

theorem heard_session :
    (Wallet.create scheme .standard).collect (Wallet.heard address) session = [spend, issue] := by
  decide +kernel

theorem not_authorised_spend : ¬spend.Authorised scheme := by
  rintro ⟨-, hsigned⟩
  have howner : address.key ∈ coin.owners := Coin.ownedBy_iff.1 ownedBy_coin
  obtain ⟨s, hs, -⟩ := hsigned coin (by simp [spend]) address.key howner
  simp [spend, Atom.spending, Atom.unsigned] at hs

theorem authorised_issue : issue.Authorised scheme :=
  ⟨by decide, by simp [issue]⟩

theorem authorised_session : Atom.bare '' {x | x ∈ (Wallet.create scheme .standard).collect
    (Wallet.heard address) session ∧ x.Authorised scheme} = {issue} := by
  rw [heard_session]
  ext x
  constructor
  · rintro ⟨y, ⟨hy, hsigned⟩, rfl⟩
    rcases List.mem_pair.1 hy with rfl | rfl
    · exact absurd hsigned not_authorised_spend
    · rfl
  · rintro rfl
    exact ⟨issue, ⟨by simp, authorised_issue⟩, rfl⟩

theorem tasks_wallet {n : Nat} {t : ForwardingTask} (ht : wallet.tasks[n]? = some t) :
    n = 0 ∧ t = ⟨address, 0, false⟩ := by
  have htasks : wallet.tasks.toList = [(0, ⟨address, 0, false⟩)] := by decide +kernel
  rw [← Std.ExtTreeMap.mem_toList_iff_getElem?_eq_some, htasks] at ht
  simpa using ht

theorem forward_wallet : (wallet.after (.forward 0)).forward 0 = none := by
  have hnext : ((wallet.filter.next 0).1.next 0).2 = .pending := by decide +kernel
  have hforwards := Wallet.forwards_after wallet 0
  generalize wallet.taken? 0 = taken at hforwards
  generalize wallet.after (.forward 0) = w' at hforwards ⊢
  cases hforwards with
  | rests hnone => exact hnone
  | passes ht =>
    obtain ⟨-, rfl⟩ := tasks_wallet ht
    refine Wallet.forward_eq_none_iff.2 fun t ht => ?_
    obtain ⟨-, rfl⟩ := tasks_wallet ht
    exact hnext
  | fails => exact Wallet.forward_finish
  | ends => exact Wallet.forward_finish

theorem passedOn_forwarded : (Wallet.create scheme .standard).collect (Wallet.passedOn address)
    (arrivals ++ [.forward 0]) = [issue] := by
  have hhanded : (Wallet.create scheme .standard).collect (Wallet.handed address)
      (arrivals ++ [.forward 0]) = [issue] := by decide +kernel
  rw [Wallet.collect_passedOn_eq, hhanded]
  exact (Reconciler.emissions_of_orderly orderly_issue (by simp)).1

theorem idle_session : ((Wallet.create scheme .standard).run session).Idle address := by
  refine ⟨fun n t ht _ => ?_, fun now => Wallet.foldBalances_eq_none_iff.2 fun fold hfold => ?_⟩
  · obtain ⟨before, hbefore, -⟩ := @Wallet.task_origin_run wallet
      [.forward 0, .foldBalances 1000 address] (by simp) n t ht
    obtain ⟨rfl, -⟩ := tasks_wallet hbefore
    exact Wallet.forward_after_foldBalances.2 forward_wallet
  · have hfollows := Wallet.follows_run scheme .standard address (arrivals ++ [.forward 0])
    rw [passedOn_forwarded] at hfollows
    cases hfollows with
    | unknown _ _ _ hnil => contradiction
    | @known r first other taken waiting hr hfirst hother hsources hinbox htook hemitted =>
      obtain ⟨second, hsecond, hrest⟩ := Wallet.inbox_after_foldBalances hfirst 1000
      obtain rfl : second = fold := Option.some_inj.1 (hsecond.symm.trans hfold)
      rw [Registry.inbox_of_get? hr hinbox] at hrest
      have hlength : waiting.length ≤ 1 := by
        have hsum := congrArg List.length hemitted
        simp only [List.length_cons, List.length_nil, List.length_append] at hsum
        omega
      exact hrest.trans (List.eq_nil_of_length_eq_zero (by simp; omega))

theorem quiet_session (fold : StateFold Holdings) (due : Nat)
    (hfold : ((Wallet.create scheme .standard).run session).balances.get? address = some fold)
    (hdue : fold.deadline = some due) : due ≤ 2000 := by
  have hbefore : (wallet.balances.get? address).map (·.deadline) = some none := by decide +kernel
  have hsame := wallet.balances_after_forward 0
  have hrun : (Wallet.create scheme .standard).run session =
    (wallet.after (.forward 0)).after (.foldBalances 1000 address) := rfl
  rw [hrun] at hfold
  rcases Wallet.deadline_after_foldBalances hfold with hset | ⟨before, hget, hkept⟩
  · have hwindow : 1000 + wallet.balances.debounce = 2000 := by decide +kernel
    rw [hsame, hwindow, hdue, Option.some_inj] at hset
    exact hset.le
  · rw [hsame] at hget
    rw [hget, Option.map_some, Option.some_inj, ← hkept, hdue] at hbefore
    contradiction

end Sample

namespace Wallet

variable {a : Address} {S : Set Atom}

/-- A wallet watches an address, possibly again and again, and never stops. Connections come and go
as they like; of the atoms that arrive on them, the valid ones are copies of just those in `S`, which
are free of conflicts. Once nothing is left to do and the debounce window has passed, the unspent
coins of each token are those that the causally complete part of `S` creates and does not spend, and
if there is such a part the holdings published last have the same coins. -/
theorem watch_converges (scheme : SignatureScheme) (config : Config) (a : Address) (S : Set Atom)
    (events : List Event) (now : Nat) (hnames : S.InjOn Atom.id)
    (hfree : (everything a).ConflictFree S) (hwatch : .watch a ∈ events)
    (hkeep : .unwatch a ∉ events)
    (hS : Atom.bare '' {x | x ∈ (create scheme config).collect (heard a) events ∧
      x.Authorised scheme} = S)
    (hidle : ((create scheme config).run events).Idle a)
    (hquiet : ∀ fold due, ((create scheme config).run events).balances.get? a = some fold →
      fold.deadline = some due → due ≤ now) :
    let w := ((create scheme config).run events).advance now
    ∃ A, IsLeast {A | A ⊆ S ∧ (everything a).CausallyClosed S A} A ∧
      (∀ t, ∃ coins, w.unconsumed a t = .ok coins ∧ coins.Nodup ∧
        ∀ c, c ∈ coins ↔ c.token = t ∧ (∃ x ∈ A, (c.id, c) ∈ (everything a).created x) ∧
          ∀ x ∈ A, c.id ∉ (everything a).consumed x) ∧
      (A.Nonempty → ∃ h, (w.balances.published a).latest = some h ∧
        ∀ t, w.unconsumed a t = .ok (h.unconsumedFor t)) := by
  intro w
  have hvalid : ∀ x ∈ (create scheme config).collect (heard a) events, x.Authorised scheme →
      x.bare ∈ S := by
    intro x hx hsigned
    rw [← hS]
    exact ⟨x, ⟨hx, hsigned⟩, rfl⟩
  obtain ⟨queue, hcarried⟩ := carried_run hnames hfree hkeep hvalid
  obtain rfl := hcarried.channel.queue_eq_nil hidle
  have hhanded := hcarried.bareAtoms_eq hnames hS
  have hmem : ∀ d ∈ (create scheme config).collect (handed a) events, d.bare ∈ S :=
    fun d hd => hhanded ▸ ⟨d, hd, rfl⟩
  have hsettled := (Reconciler.settling_acceptAll hnames hfree hmem).2
  rw [← collect_passedOn_eq] at hsettled
  -- The reconciler of the address is the one that settled.
  obtain ⟨r, hr⟩ := Option.isSome_iff_exists.1 (knows_run hwatch)
  rw [← view_run hr] at hsettled
  have hunconsumed : ∀ t, w.unconsumed a t = .ok (r.snapshotFor t) := fun t => unconsumed_of_get? hr
  refine ⟨_, hsettled.isLeast_emitted hnames hfree hhanded, fun t => ⟨_, hunconsumed t,
    Reconciler.nodup_snapshotFor hsettled.records.unconsumed_eq, fun c =>
      Reconciler.mem_snapshotFor_of_settled hfree hsettled⟩, fun hsome => ?_⟩
  have hpassed : (create scheme config).collect (passedOn a) events ≠ [] := by
    intro hnil
    simp [hnil, bareAtoms] at hsome
  have hfolded : (balanceReducer.foldAtoms a .none
      ((create scheme config).collect (passedOn a) events)).unconsumed = r.view.unconsumed := by
    rw [hsettled.records.unconsumed_eq]
    exact Holdings.unconsumed_foldAtoms hsettled.records.orderly
  refine ⟨_, (follows_run scheme config a events).latest_advance (hidle.folded now) hquiet hpassed,
    fun t => ?_⟩
  rw [hunconsumed, Holdings.unconsumedFor, hfolded]
  rfl

/-- After a session with two connections, in which an unsigned atom that spends a coin arrived before
the one that creates it, the coin is unspent, and the holdings published last have it. -/
theorem watch_converges_two_connections :
    let w := ((create Sample.scheme .standard).run Sample.session).advance 2000
    ∃ h, (w.balances.published Sample.address).latest = some h ∧
      w.unconsumed Sample.address Sample.coin.token = .ok (h.unconsumedFor Sample.coin.token) ∧
      ∀ c, c ∈ h.unconsumedFor Sample.coin.token ↔ c = Sample.coin := by
  intro w
  have hfree : Sample.scope.ConflictFree {Sample.issue} := by
    constructor <;> simp
  obtain ⟨A, ⟨⟨hsub, hclosed⟩, -⟩, hcoins, hlatest⟩ :=
    watch_converges Sample.scheme .standard Sample.address {Sample.issue} Sample.session 2000
      (Set.injOn_singleton _ _) hfree (by simp [Sample.session, Sample.arrivals])
      (by simp [Sample.session, Sample.arrivals]) Sample.authorised_session Sample.idle_session
      Sample.quiet_session
  have hmem : Sample.issue ∈ A :=
    hclosed _ rfl fun k hk => absurd hk (Sample.consumed_issue ▸ List.not_mem_nil)
  obtain rfl : A = {Sample.issue} := Set.Subset.antisymm hsub (Set.singleton_subset_iff.2 hmem)
  obtain ⟨h, hpublished, hsame⟩ := hlatest ⟨_, hmem⟩
  obtain ⟨coins, hok, -, hiff⟩ := hcoins Sample.coin.token
  obtain rfl : coins = h.unconsumedFor Sample.coin.token := Except.ok.inj (hok.symm.trans (hsame _))
  refine ⟨h, hpublished, hsame _, fun c => ?_⟩
  have hcreated : Sample.scope.created Sample.issue = [(Sample.coin.id, Sample.coin)] :=
    Atom.created_creating Sample.relevant_coin
  rw [hiff, show everything Sample.address = Sample.scope from rfl]
  simp only [Set.mem_singleton_iff, exists_eq_left, forall_eq, hcreated, List.mem_singleton,
    Prod.mk.injEq, Sample.consumed_issue, List.not_mem_nil, not_false_eq_true, and_true]
  exact ⟨fun heq => heq.2.2, fun heq => heq ▸ ⟨rfl, rfl, rfl⟩⟩

end Wallet

end ParticleLedger
