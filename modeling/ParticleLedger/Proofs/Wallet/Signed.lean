import ParticleLedger.Proofs.Reconciler.Waiting
import ParticleLedger.Proofs.Wallet.Ledger

/-!
# What leaves a wallet's index was signed

Only authorised atoms get into the inboxes of subscriptions, because a feed delivers the copy that it
has validated and no other. From there they reach the reconcilers as they are, and an atom that waits
in one is the copy that was handed to it. So whatever a reconciler holds or has passed on carries the
signatures of all owners of all coins that it spends, whatever the connections do and in whatever
order the tasks of the wallet take their steps.

Main statements: `DeliveryFilter.Vetted.handle`, `authorised_of_handed` and `spends_signed`.
-/

namespace ParticleLedger

open Std (ExtTreeMap)

/-! ## Inboxes hold authorised atoms -/

/-- The filter asks for signatures, and every atom that waits in an inbox is authorised. -/
structure DeliveryFilter.Vetted (scheme : SignatureScheme) (f : DeliveryFilter) : Prop where
  validator_eq : f.validator = signatureValidator scheme
  authorised : ∀ (j : Nat) (s : Subscription), f.subscriptions[j]? = some s →
    ∀ x, .atom x ∈ s.inbox → x.Authorised scheme

namespace DeliveryFilter.Vetted

variable {scheme : SignatureScheme} {f : DeliveryFilter} {id : Nat} {a : Address}

theorem empty (policy : RetryPolicy) :
    (DeliveryFilter.empty policy (signatureValidator scheme)).Vetted scheme :=
  ⟨rfl, by simp [DeliveryFilter.empty]⟩

theorem subscribe (h : f.Vetted scheme) : (f.subscribe a).Vetted scheme where
  validator_eq := h.validator_eq
  authorised j s hs x hx := by
    rw [getElem?_subscriptions_subscribe] at hs
    by_cases hj : j = f.opened
    · rw [if_pos hj, Option.some_inj] at hs
      subst hs
      simp [Subscription.fresh] at hx
    · rw [if_neg hj] at hs
      exact h.authorised j s hs x hx

theorem unsubscribe (h : f.Vetted scheme) : (f.unsubscribe id).Vetted scheme where
  validator_eq := by rw [validator_unsubscribe, h.validator_eq]
  authorised j s hs x hx := by
    rw [getElem?_subscriptions_unsubscribe] at hs
    split at hs
    · contradiction
    · exact h.authorised j s hs x hx

theorem next (h : f.Vetted scheme) : (f.next id).1.Vetted scheme where
  validator_eq := by rw [validator_next, h.validator_eq]
  authorised j s hs x hx := by
    rw [getElem?_subscriptions_next] at hs
    split at hs
    · obtain ⟨before, hbefore, rfl⟩ := Option.map_eq_some_iff.1 hs
      exact h.authorised j before hbefore x (Subscription.mem_inbox_of_next hx)
    · exact h.authorised j s hs x hx

/-- The copy that a pump tells its subscribers is the one that was validated. -/
theorem of_told (h : f.Vetted scheme) {now : Nat} {e : TransportEvent} {p : Pump} {x : Atom}
    (htold : (p.handle f.policy f.validator now e).told = some (.atom x)) :
    x.Authorised scheme := by
  have hdoes := p.does_handle f.policy f.validator now e
  generalize p.handle f.policy f.validator now e = outcome at hdoes htold
  cases hdoes with
  | silent hnone => simp [hnone] at htold
  | givesUp hexhausted => simp [hexhausted] at htold
  | delivers hatom _ _ hvalid =>
    rw [hatom, Option.some_inj, FeedEvent.atom.injEq] at htold
    rw [← signatureValidator_eq_ok_iff, ← h.validator_eq, ← htold]
    exact hvalid

theorem handle (h : f.Vetted scheme) {now : Nat} {e : TransportEvent} :
    (f.handle now a e).Vetted scheme where
  validator_eq := by rw [validator_handle, h.validator_eq]
  authorised j s hs x hx := by
    rw [getElem?_subscriptions_handle] at hs
    cases hfeed : f.feeds[a]? with
    | none =>
      simp only [hfeed] at hs
      exact h.authorised j s hs x hx
    | some feed =>
      simp only [hfeed] at hs
      cases htold : (feed.pump.handle f.policy f.validator now e).told with
      | none =>
        simp only [htold] at hs
        exact h.authorised j s hs x hx
      | some event =>
        simp only [htold] at hs
        obtain ⟨before, hbefore, rfl⟩ := Option.map_eq_some_iff.1 hs
        rcases List.mem_append.1 hx with hx | hx
        · exact h.authorised j before hbefore x hx
        · obtain rfl := (List.mem_replicate.1 hx).2
          exact h.of_told htold

/-- What a subscription gives away is authorised. -/
theorem of_next (h : f.Vetted scheme) {x : Atom} (hx : (f.next id).2 = .ready (.ok x)) :
    x.Authorised scheme := by
  obtain ⟨s, rest, hs, -, hinbox⟩ := next_eq_ok hx
  exact h.authorised id s hs x (by simp [hinbox])

end DeliveryFilter.Vetted

/-- A step of a wallet puts only authorised atoms into inboxes. -/
theorem DeliveryFilter.Vetted.step {scheme : SignatureScheme} {c c' : Wallet.Wiring}
    {e : Wallet.Event} (h : c.filter.Vetted scheme) (hstep : c.Step e c') :
    c'.filter.Vetted scheme := by
  cases hstep with
  | stays => exact h
  | starts => exact h.subscribe
  | stops => exact h
  | reaps => exact h.unsubscribe
  | reads => exact h.next
  | ends => exact h.next.unsubscribe
  | meets => exact h.handle

namespace Wallet

open Registry (everything)
open LedgerView (replayAll)

variable {scheme : SignatureScheme} {config : Config} {w : Wallet} {a : Address} {e : Event}

theorem vetted_run (scheme : SignatureScheme) (config : Config) (events : List Event) :
    ((create scheme config).run events).filter.Vetted scheme := by
  induction events using List.reverseRecOn with
  | nil => exact .empty _
  | append_singleton events e ih =>
    rw [run_concat]
    exact ih.step (step_after _ e)

/-- What is handed to reconcilers is authorised. -/
theorem authorised_of_handed (h : w.filter.Vetted scheme) {x : Atom} (hx : x ∈ w.handed a e) :
    x.Authorised scheme := by
  obtain ⟨task, t, -, -, -, hnext⟩ := exists_task_of_mem_handed hx
  exact h.of_next hnext

theorem authorised_of_collect_handed {events : List Event} {x : Atom}
    (hx : x ∈ (create scheme config).collect (handed a) events) : x.Authorised scheme := by
  induction events using List.reverseRecOn with
  | nil => simp [collect] at hx
  | append_singleton events e ih =>
    rw [collect_concat] at hx
    rcases List.mem_append.1 hx with hx | hx
    · exact ih hx
    · exact authorised_of_handed (vetted_run scheme config events) hx

/-- Whatever the connections of a wallet do, and in whatever order its parts take their steps: every
atom that the reconciler of an address has passed on, and every atom that waits in it, has a
timestamp and was signed by every owner of every coin that it spends. The unspent coins are those
that the atoms passed on leave, and an atom that takes one of them out spends it and was signed with
the key of the address itself. -/
theorem spends_signed (scheme : SignatureScheme) (config : Config) (events : List Event)
    (a : Address) :
    let w := (create scheme config).run events
    let emitted := (create scheme config).collect (passedOn a) events
    (∀ e ∈ emitted, e.Authorised scheme) ∧
    (∀ r, w.registry.get? (everything a) = some r →
      (∀ (k : ParticleId) (b : Atom), r.view.pending[k]? = some b → b.Authorised scheme) ∧
      r.view.unconsumed = replayAll (everything a) emitted) ∧
    ∀ before e after k, emitted = before ++ e :: after → k ∈ replayAll (everything a) before →
      k ∉ replayAll (everything a) (before ++ [e]) →
      k ∈ (everything a).consumed e ∧
        ∃ s, e.signatures[a.key]? = some s ∧ scheme.verifyId a.key e.id s := by
  intro w emitted
  have hemitted : emitted = (Reconciler.fresh (everything a)).emissions _ :=
    collect_passedOn_eq scheme config a events
  -- Every atom that a reconciler holds or has passed on is one of those handed to it.
  obtain ⟨heard, left, hkept, -⟩ :=
    @WorkInvariant.acceptAll (everything a) {x | x.Authorised scheme}
      (Kept (everything a) {x | x.Authorised scheme}) (fun _ => Kept.workInvariant) Kept.empty
      Kept.hear ((create scheme config).collect (handed a) events)
      (fun x hx => authorised_of_collect_handed hx)
  have hauthorised : ∀ e ∈ emitted, e.Authorised scheme := hemitted ▸ hkept.emitted_mem
  refine ⟨hauthorised, fun r hr => ?_, fun before e after k heq hbefore hafter => ?_⟩
  · rw [view_run hr, hemitted]
    exact ⟨hkept.waiting_mem, (Reconciler.records_acceptAll _ _).unconsumed_eq⟩
  · rw [LedgerView.replayAll_concat, LedgerView.mem_replay] at hafter
    have hspent : k ∈ (everything a).consumed e := by tauto
    refine ⟨hspent, ?_⟩
    obtain ⟨c, hc, -⟩ := List.mem_map.1 hspent
    obtain ⟨hc, hrelevant⟩ := List.mem_filter.1 hc
    have howner : a.key ∈ c.owners := by
      simp only [Scope.relevant, everything, Bool.and_eq_true] at hrelevant
      simpa [Coin.ownedBy, KeySet.includes] using hrelevant.1
    exact (hauthorised e (heq ▸ by simp)).2 c hc a.key howner

end Wallet

end ParticleLedger
