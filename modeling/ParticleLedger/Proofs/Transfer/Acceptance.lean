import Mathlib.Algebra.BigOperators.Ring.Finset
import ParticleLedger.Proofs.Balance.Holdings
import ParticleLedger.Proofs.Transfer.Construction
import ParticleLedger.Proofs.Wallet.Convergence

/-!
# A transfer comes back

A transfer is built from the coins that a reconciler lists, and comes back to the same reconciler
once it is in the ledger. If what it creates has new names, the reconciler takes it at once: the
spent coins go, the change comes, and so does the payment if the account is among those paid.

What the last coin holds beyond the amount goes back to the owners of that coin, who include the
account.

Main statements: `Reconciler.Reached.records`, `TransferBuilder.pays_of_build` and
`TransferBuilder.accepted_back`.
-/

namespace ParticleLedger

open Coin (worth worthAll)
open Std (ExtTreeMap)

/-! ## What replaying an atom that fits does to each coin -/

/-- Whether an atom fits does not depend on its signatures. -/
theorem Scope.Fits.signed {scope : Scope} {m : ExtTreeMap ParticleId Coin} {a : Atom}
    (h : scope.Fits m a) (signatures : ExtTreeMap PublicKey Signature) :
    scope.Fits m { a with signatures } :=
  ⟨h.spends_present, h.creates_absent, h.creates_nodup⟩

namespace LedgerView

variable {scope : Scope} {s : LedgerView} {a : Atom} {k : ParticleId} {c : Coin}
  {m : ExtTreeMap ParticleId Coin}

/-- A coin that the atom creates stands under its name afterwards. -/
theorem getElem?_replay_of_created (hnodup : (scope.creates a).Nodup)
    (hc : (k, c) ∈ scope.created a) : (replay scope m a)[k]? = some c := by
  have hmem : k ∈ replay scope m a := mem_replay.2 (.inl (Scope.mem_creates.2 ⟨c, hc⟩))
  obtain ⟨d, hd⟩ := Option.isSome_iff_exists.1 (ExtTreeMap.mem_iff_isSome_getElem?.1 hmem)
  rcases getElem?_replay hd with hcreated | ⟨hnot, -, -⟩
  · have hsame : (k, d) = (k, c) := List.inj_on_of_nodup_map hnodup hcreated hc rfl
    rw [hd, (Prod.mk.inj hsame).2]
  · exact absurd (Scope.mem_creates.2 ⟨c, hc⟩) hnot

/-- Under a name that the atom does not create stands what stood there, unless the atom spends it.
-/
theorem getElem?_replay_of_not_creates (h : k ∉ scope.creates a) :
    (replay scope m a)[k]? = if k ∈ scope.consumed a then none else m[k]? := by
  cases hafter : (replay scope m a)[k]? with
  | some d =>
    rcases getElem?_replay hafter with hcreated | ⟨-, hkept, hbefore⟩
    · exact absurd (Scope.mem_creates.2 ⟨d, hcreated⟩) h
    · rw [if_neg hkept, hbefore]
  | none =>
    have hgone : k ∉ replay scope m a := by
      rw [ExtTreeMap.mem_iff_isSome_getElem?, hafter]
      exact Bool.false_ne_true
    by_cases hk : k ∈ scope.consumed a
    · rw [if_pos hk]
    · have hbefore : k ∉ m := fun hmem => hgone (mem_replay.2 (.inr ⟨hmem, hk⟩))
      rw [if_neg hk, ExtTreeMap.getElem?_eq_none hbefore]

end LedgerView

/-! ## Reconcilers as they can be -/

namespace Reconciler

variable {scope : Scope} {r : Reconciler} {t : TokenRef}

/-- What a reconciler can become: atoms are offered to it, and subscribers come, take what waits for
them and go. -/
inductive Reached (scope : Scope) : Reconciler → Prop
  | fresh : Reached scope (fresh scope)
  | accept {r : Reconciler} (h : Reached scope r) (a : Atom) :
    Reached scope (r.accept a).reconciler
  | subscribe {r : Reconciler} (h : Reached scope r) : Reached scope r.subscribe
  | unsubscribe {r : Reconciler} (h : Reached scope r) (id : Nat) :
    Reached scope (r.unsubscribe id)
  | take {r : Reconciler} (h : Reached scope r) (id n : Nat) :
    Reached scope { r with subscribers := r.subscribers.take id n }

/-- Subscribers do not matter for what a reconciler knows: it records what it has passed on. -/
theorem Reached.records (h : Reached scope r) :
    r.scope = scope ∧ ∃ history, r.view.Records scope history := by
  induction h with
  | fresh => exact ⟨rfl, [], LedgerView.Records.empty⟩
  | @accept r _ a ih =>
    obtain ⟨rfl, history, hrecords⟩ := ih
    exact ⟨scope_accept, _, records_accept hrecords⟩
  | subscribe _ ih => exact ih
  | unsubscribe _ id ih => exact ih
  | take _ id n ih => exact ih

/-- A coin that is listed stands under its name, and is the account's. -/
theorem stored_of_mem_snapshotFor {a : Address} {history : List Atom} {c : Coin}
    (hrecords : r.view.Records (Scope.all a) history) (hc : c ∈ r.snapshotFor t) :
    r.view.unconsumed[c.id]? = some c ∧ c.ownedBy a := by
  have hstored : r.view.unconsumed[c.id]? = some c :=
    ((mem_snapshotFor_iff hrecords.unconsumed_eq).1 hc).2
  have hrelevant : (Scope.all a).relevant c :=
    (LedgerView.named_of_replayAll (hrecords.unconsumed_eq ▸ hstored)).2
  rw [Scope.relevant_all] at hrelevant
  exact ⟨hstored, hrelevant⟩

/-- What the listed coins of a token add up to. -/
def funds (r : Reconciler) (t : TokenRef) : Nat :=
  ((r.snapshotFor t).map (·.quantity.toNat)).sum

theorem funds_eq_total : (r.funds t : Int) = total t r.view.unconsumed := by
  rw [funds, total, Coin.worthAll_eq_sum_filter, Nat.cast_list_sum, List.map_map]
  rfl

/-- The coins of a token are listed as before if those with their names are. -/
theorem snapshotFor_congr {r' : Reconciler}
    (h : ∀ k : ParticleId, r'.view.unconsumed[k]?.filter (fun c => c.token = t) =
      r.view.unconsumed[k]?.filter (fun c => c.token = t)) :
    r'.snapshotFor t = r.snapshotFor t := by
  have hsame : (r'.view.unconsumed.filter fun _ c => c.token = t) =
      r.view.unconsumed.filter fun _ c => c.token = t := by
    apply ExtTreeMap.ext_getElem?
    intro k
    rw [ExtTreeMap.getElem?_filter', ExtTreeMap.getElem?_filter']
    exact h k
  rw [snapshotFor_eq, snapshotFor_eq, hsame]

end Reconciler

/-! ## A transfer from the coins that a reconciler lists -/

/-- The names of what an atom creates, and its own, are new to a view. -/
structure UnsignedAtom.FreshFor (u : UnsignedAtom) (s : LedgerView) : Prop where
  distinct : (u.atom.consumables.map Coin.id).Nodup
  absent : ∀ c ∈ u.atom.consumables, c.id ∉ s.unconsumed
  unawaited : ∀ c ∈ u.atom.consumables, c.id ∉ s.pending
  unapplied : u.id ∉ s.applied

namespace TransferBuilder

variable {b : TransferBuilder} {nonces : Nonces} {now : Int} {coins : List Coin} {u : UnsignedAtom}

/-- What a plain transfer spends and creates. -/
structure Pays (b : TransferBuilder) (coins : List Coin) (u : UnsignedAtom) (paid : Coin)
    (change : Option Coin) : Prop where
  consumers : u.atom.consumers = u.selection.spent
  consumables : u.atom.consumables = paid :: change.toList
  spent : u.selection.spent.Sublist coins
  spent_token : ∀ c ∈ u.selection.spent, c.token = b.token
  paid_token : paid.token = b.token
  paid_owners : paid.owners = b.recipient
  paid_quantity : paid.quantity = b.amount
  change_token : ∀ c ∈ change, c.token = b.token
  /-- The change goes back to the owners of a coin that is spent. -/
  change_owners : ∀ c ∈ change, ∃ d ∈ u.selection.spent, d.owners = c.owners
  conserved : worthAll b.token u.atom.consumables = worthAll b.token u.atom.consumers

/-- A transfer built with the usual policy and nothing added pays the amount out of coins on offer.
-/
theorem pays_of_build (hselector : b.selector = greedyFirstFit) (hextra : b.extraParticles = [])
    (h : b.build nonces now coins = .ok u) : ∃ paid change, b.Pays coins u paid change := by
  obtain ⟨-, -, -, hown⟩ := build_eq_ok_iff.1 h
  obtain ⟨-, -, spent, hcover, rfl⟩ := (build_eq_ok_iff_of_usual hselector).1 h
  have hfront : spent <+: coinsOf b.token coins := hcover.isPrefix
  refine ⟨b.payment nonces, b.change nonces spent, ?_⟩
  exact {
    consumers := consumers_chosen hextra nonces now spent
    consumables := consumables_chosen hextra nonces now spent
    spent := hfront.sublist.trans List.filter_sublist
    spent_token := fun c hc => token_of_mem_coinsOf (hfront.subset hc)
    paid_token := rfl
    paid_owners := rfl
    paid_quantity := rfl
    change_token := fun c => token_of_mem_change
    change_owners := by
      intro c hc
      obtain ⟨left, hleft, rfl⟩ := Option.map_eq_some_iff.1 hc
      exact owners_of_mem_excess hleft
    conserved := hown }

namespace Pays

variable {a : Address} {r : Reconciler} {history : List Atom} {paid : Coin} {change : Option Coin}
  {c : Coin} {k : ParticleId}

/-- The coins spent are the account's, and stand under their names. -/
theorem stored (h : b.Pays (r.snapshotFor b.token) u paid change)
    (hrecords : r.view.Records (Scope.all a) history) (hc : c ∈ u.selection.spent) :
    r.view.unconsumed[c.id]? = some c ∧ c.ownedBy a :=
  Reconciler.stored_of_mem_snapshotFor hrecords (h.spent.subset hc)

/-- No coin is spent twice. -/
theorem nodup_spent (h : b.Pays (r.snapshotFor b.token) u paid change)
    (hrecords : r.view.Records (Scope.all a) history) :
    (u.selection.spent.map Coin.id).Nodup := by
  have hlisted : (r.snapshotFor b.token).Nodup :=
    Reconciler.nodup_snapshotFor hrecords.unconsumed_eq
  refine List.Nodup.map_on ?_ (hlisted.sublist h.spent)
  intro c hc d hd hid
  have hsame := (h.stored hrecords hc).1
  rw [hid, (h.stored hrecords hd).1] at hsame
  exact (Option.some_inj.1 hsame).symm

theorem consumed_eq (h : b.Pays (r.snapshotFor b.token) u paid change)
    (hrecords : r.view.Records (Scope.all a) history) :
    (Scope.all a).consumed u.atom = u.selection.spent.map Coin.id := by
  have hall : u.atom.spends a = u.selection.spent := by
    rw [Atom.spends, h.consumers, List.filter_eq_self]
    intro c hc
    exact (h.stored hrecords hc).2
  rw [Scope.consumed_all, hall]

/-- The change is the account's. -/
theorem change_owned (h : b.Pays (r.snapshotFor b.token) u paid change)
    (hrecords : r.view.Records (Scope.all a) history) (hc : c ∈ change) : c.ownedBy a := by
  obtain ⟨d, hd, howners⟩ := h.change_owners c hc
  have howned := (h.stored hrecords hd).2
  rwa [Coin.ownedBy, howners] at howned

/-- Of the coins created, those of the account are the change, and the payment if the account is
among those paid. -/
theorem map_created (h : b.Pays (r.snapshotFor b.token) u paid change)
    (hrecords : r.view.Records (Scope.all a) history) :
    ((Scope.all a).created u.atom).map (·.2) =
      (if b.recipient.includes a then [paid] else []) ++ change.toList := by
  have hmade : ((Scope.all a).created u.atom).map (·.2) = u.atom.makes a := by
    rw [Scope.created_all, List.map_map]
    exact List.map_id _
  have hchange : change.toList.filter (·.ownedBy a) = change.toList := by
    rw [List.filter_eq_self]
    intro c hc
    exact h.change_owned hrecords (Option.mem_toList.1 hc)
  rw [hmade, Atom.makes, h.consumables, List.filter_cons, hchange, Coin.ownedBy, h.paid_owners]
  by_cases hpaid : b.recipient.includes a
  · rw [if_pos hpaid, if_pos hpaid]
    rfl
  · rw [if_neg hpaid, if_neg hpaid]
    rfl

/-- The transfer fits what the account holds. -/
theorem fits (h : b.Pays (r.snapshotFor b.token) u paid change)
    (hrecords : r.view.Records (Scope.all a) history) (hfresh : u.FreshFor r.view) :
    (Scope.all a).Fits r.view.unconsumed u.atom where
  spends_present k hk := by
    rw [h.consumed_eq hrecords] at hk
    obtain ⟨c, hc, rfl⟩ := List.mem_map.1 hk
    rw [ExtTreeMap.mem_iff_isSome_getElem?, (h.stored hrecords hc).1]
    rfl
  creates_absent k hk := by
    obtain ⟨c, hc⟩ := Scope.mem_creates.1 hk
    obtain ⟨hmem, -, rfl⟩ := Scope.mem_created.1 hc
    exact hfresh.absent c hmem
  creates_nodup := by
    rw [Scope.creates, Scope.created, List.map_map]
    exact hfresh.distinct.sublist (List.filter_sublist.map _)

/-- What the account holds of the token falls by the amount, unless the account is paid. -/
theorem total_replay (h : b.Pays (r.snapshotFor b.token) u paid change)
    (hrecords : r.view.Records (Scope.all a) history) (hfresh : u.FreshFor r.view) :
    total b.token (LedgerView.replay (Scope.all a) r.view.unconsumed u.atom) +
        (if b.recipient.includes a then 0 else b.amount.toNat : Int) =
      total b.token r.view.unconsumed := by
  have hspent : ∑ k ∈ ((Scope.all a).consumed u.atom).toFinset,
      worthAt b.token r.view.unconsumed k = worthAll b.token u.selection.spent := by
    rw [h.consumed_eq hrecords, List.sum_toFinset _ (h.nodup_spent hrecords), List.map_map,
      worthAll]
    congr 1
    apply List.map_congr_left
    intro c hc
    show worthAt b.token r.view.unconsumed c.id = worth b.token c
    rw [worthAt, (h.stored hrecords hc).1, Option.elim_some]
  have hpaid : worth b.token paid = b.amount.toNat := by
    rw [worth, if_pos h.paid_token, h.paid_quantity]
  have hconserved := h.conserved
  rw [h.consumables, h.consumers, Coin.worthAll_cons, hpaid] at hconserved
  rw [ParticleLedger.total_replay (h.fits hrecords hfresh), hspent, h.map_created hrecords]
  by_cases hincluded : b.recipient.includes a
  · rw [if_pos hincluded, if_pos hincluded, List.singleton_append, Coin.worthAll_cons, hpaid]
    omega
  · rw [if_neg hincluded, if_neg hincluded, List.nil_append]
    omega

/-- What the transfer creates of the account, by name. -/
theorem mem_creates_iff (h : b.Pays (r.snapshotFor b.token) u paid change)
    (hrecords : r.view.Records (Scope.all a) history) : k ∈ (Scope.all a).creates u.atom ↔
      b.recipient.includes a ∧ k = paid.id ∨ ∃ c ∈ change, k = c.id := by
  have hids : (Scope.all a).creates u.atom =
      (((Scope.all a).created u.atom).map (·.2)).map Coin.id := by
    rw [Scope.creates, Scope.created, List.map_map, List.map_map, List.map_map]
    rfl
  rw [hids, h.map_created hrecords]
  by_cases hincluded : b.recipient.includes a
  · simp [hincluded, eq_comm]
  · simp [hincluded, eq_comm]

section After

variable (h : b.Pays (r.snapshotFor b.token) u paid change)
  (hrecords : r.view.Records (Scope.all a) history) (hfresh : u.FreshFor r.view)
include h hrecords hfresh

theorem getElem?_replay_spent (hc : c ∈ u.selection.spent) :
    (LedgerView.replay (Scope.all a) r.view.unconsumed u.atom)[c.id]? = none := by
  have hspent : c.id ∈ (Scope.all a).consumed u.atom := by
    rw [h.consumed_eq hrecords]
    exact List.mem_map_of_mem hc
  have hnot := (h.fits hrecords hfresh).not_creates hspent
  rw [LedgerView.getElem?_replay_of_not_creates hnot, if_pos hspent]

theorem getElem?_replay_change (hc : c ∈ change) :
    (LedgerView.replay (Scope.all a) r.view.unconsumed u.atom)[c.id]? = some c := by
  refine LedgerView.getElem?_replay_of_created (h.fits hrecords hfresh).creates_nodup ?_
  refine Scope.mem_created.2 ⟨?_, ?_, rfl⟩
  · rw [h.consumables]
    exact List.mem_cons_of_mem _ (Option.mem_toList.2 hc)
  · rw [Scope.relevant_all]
    exact h.change_owned hrecords hc

theorem getElem?_replay_paid :
    (LedgerView.replay (Scope.all a) r.view.unconsumed u.atom)[paid.id]? =
      if b.recipient.includes a then some paid else none := by
  have hmem : paid ∈ u.atom.consumables := by
    rw [h.consumables]
    exact List.mem_cons_self
  by_cases hincluded : b.recipient.includes a
  · rw [if_pos hincluded]
    refine LedgerView.getElem?_replay_of_created (h.fits hrecords hfresh).creates_nodup ?_
    refine Scope.mem_created.2 ⟨hmem, ?_, rfl⟩
    rw [Scope.relevant_all]
    show paid.owners.includes a
    rw [h.paid_owners, hincluded]
  · rw [if_neg hincluded]
    -- The change has another name, and the name of the payment was free.
    have hnot : paid.id ∉ (Scope.all a).creates u.atom := by
      rw [h.mem_creates_iff hrecords]
      rintro (⟨hincludes, -⟩ | ⟨c, hc, hid⟩)
      · exact hincluded hincludes
      · have hdistinct := hfresh.distinct
        rw [h.consumables, List.map_cons, List.nodup_cons, hid] at hdistinct
        exact hdistinct.1 (List.mem_map_of_mem (Option.mem_toList.2 hc))
    have hfree : r.view.unconsumed[paid.id]? = none :=
      ExtTreeMap.getElem?_eq_none (hfresh.absent paid hmem)
    rw [LedgerView.getElem?_replay_of_not_creates hnot, hfree, ite_self]

omit hfresh in
theorem getElem?_replay_other (hpaid : k ≠ paid.id) (hchange : ∀ c ∈ change, k ≠ c.id)
    (hspent : ∀ c ∈ u.selection.spent, k ≠ c.id) :
    (LedgerView.replay (Scope.all a) r.view.unconsumed u.atom)[k]? = r.view.unconsumed[k]? := by
  have hnot : k ∉ (Scope.all a).creates u.atom := by
    rw [h.mem_creates_iff hrecords]
    rintro (⟨-, hid⟩ | ⟨c, hc, hid⟩)
    · exact hpaid hid
    · exact hchange c hc hid
  have hkept : k ∉ (Scope.all a).consumed u.atom := by
    rw [h.consumed_eq hrecords]
    intro hk
    obtain ⟨c, hc, hid⟩ := List.mem_map.1 hk
    exact hspent c hc hid.symm
  rw [LedgerView.getElem?_replay_of_not_creates hnot, if_neg hkept]

/-- Coins of other tokens stay where they are. -/
theorem filter_getElem?_replay {t : TokenRef} (ht : t ≠ b.token) (k : ParticleId) :
    (LedgerView.replay (Scope.all a) r.view.unconsumed u.atom)[k]?.filter (fun c => c.token = t) =
      r.view.unconsumed[k]?.filter (fun c => c.token = t) := by
  have hnone : ∀ c : Coin, c.token = b.token → (some c).filter (fun c => c.token = t) = none := by
    intro c hc
    rw [Option.filter_some, hc, if_neg (by simpa using Ne.symm ht)]
  have hfree : ∀ c ∈ u.atom.consumables, r.view.unconsumed[c.id]? = none := by
    intro c hc
    exact ExtTreeMap.getElem?_eq_none (hfresh.absent c hc)
  rw [h.consumables] at hfree
  by_cases hpaid : k = paid.id
  · rw [hpaid, h.getElem?_replay_paid hrecords hfresh, hfree paid List.mem_cons_self]
    split
    · exact hnone paid h.paid_token
    · rfl
  by_cases hchange : ∃ c ∈ change, k = c.id
  · obtain ⟨c, hc, rfl⟩ := hchange
    rw [h.getElem?_replay_change hrecords hfresh hc, hnone c (h.change_token c hc),
      hfree c (List.mem_cons_of_mem _ (Option.mem_toList.2 hc))]
    rfl
  by_cases hspent : ∃ c ∈ u.selection.spent, k = c.id
  · obtain ⟨c, hc, rfl⟩ := hspent
    rw [h.getElem?_replay_spent hrecords hfresh hc, (h.stored hrecords hc).1,
      hnone c (h.spent_token c hc)]
    rfl
  · rw [h.getElem?_replay_other hrecords hpaid (fun c hc hid => hchange ⟨c, hc, hid⟩)
      fun c hc hid => hspent ⟨c, hc, hid⟩]

/-- The reconciler passes the transfer on, whatever signatures it carries, and goes on. -/
theorem accept_eq (hscope : r.scope = Scope.all a) (hrunning : r.halted = none)
    (signatures : ExtTreeMap PublicKey Signature) :
    r.accept { u.atom with signatures } =
      { reconciler :=
          { r with
            view := ⟨LedgerView.replay (Scope.all a) r.view.unconsumed u.atom, r.view.pending,
              r.view.applied.insert u.id⟩
            halted := none
            subscribers := r.subscribers.post [{ u.atom with signatures }] }
        emitted := [{ u.atom with signatures }]
        error := none } := by
  have hfree : ∀ k ∈ (Scope.all a).creates u.atom, k ∉ r.view.pending := by
    intro k hk
    obtain ⟨c, hc⟩ := Scope.mem_creates.1 hk
    obtain ⟨hmem, -, rfl⟩ := Scope.mem_created.1 hc
    exact hfresh.unawaited c hmem
  have haccept := LedgerView.accept_of_unawaited (a := { u.atom with signatures })
    hfresh.unapplied ((h.fits hrecords hfresh).signed signatures) hfree
  rw [Reconciler.accept_of_running hrunning, hscope, haccept]
  rfl

end After

end Pays

/-- **A transfer is accepted back.** A reconciler of all tokens that is running and has come to
where it is in any way is offered a plain transfer that was built from the coins that it lists,
with any signatures. If the names of what the transfer creates are new to it and to each other, and
the transfer is new, it passes on the transfer and nothing else. What is spent is gone, the change
is there, the payment is there if the account is among those paid, and under every other name is
what was there; no atom waits that did not wait before, and none stops waiting. The coins of other
tokens are listed as before. Those of the token add up to the amount less, or to the same if the
account is among those paid. -/
theorem accepted_back {a : Address} {r : Reconciler} (hreached : r.Reached (Scope.all a))
    (hrunning : r.halted = none) (hselector : b.selector = greedyFirstFit)
    (hextra : b.extraParticles = [])
    (hbuild : b.build nonces now (r.snapshotFor b.token) = .ok u) (hfresh : u.FreshFor r.view)
    (signatures : ExtTreeMap PublicKey Signature) :
    let atom := { u.atom with signatures }
    let after := (r.accept atom).reconciler
    (r.accept atom).result = .ok [atom] ∧
    after.view.pending = r.view.pending ∧
    ∃ (paid : Coin) (change : Option Coin),
      b.Pays (r.snapshotFor b.token) u paid change ∧
      (∀ c ∈ u.selection.spent,
        r.view.unconsumed[c.id]? = some c ∧ after.view.unconsumed[c.id]? = none) ∧
      (∀ c ∈ change, after.view.unconsumed[c.id]? = some c) ∧
      after.view.unconsumed[paid.id]? = (if b.recipient.includes a then some paid else none) ∧
      (∀ k, k ≠ paid.id → (∀ c ∈ change, k ≠ c.id) → (∀ c ∈ u.selection.spent, k ≠ c.id) →
        after.view.unconsumed[k]? = r.view.unconsumed[k]?) ∧
      (∀ t, t ≠ b.token → after.snapshotFor t = r.snapshotFor t) ∧
      after.funds b.token + (if b.recipient.includes a then 0 else b.amount.toNat) =
        r.funds b.token := by
  intro atom after
  obtain ⟨hscope, history, hrecords⟩ := hreached.records
  obtain ⟨paid, change, hpays⟩ := pays_of_build hselector hextra hbuild
  have hoffer := hpays.accept_eq hrecords hfresh hscope hrunning signatures
  have hview : after.view.unconsumed =
      LedgerView.replay (Scope.all a) r.view.unconsumed u.atom := by
    show (r.accept atom).reconciler.view.unconsumed = _
    rw [hoffer]
  have hresult : (r.accept atom).result = .ok [atom] := by
    rw [hoffer]
    rfl
  have hpending : after.view.pending = r.view.pending := by
    show (r.accept atom).reconciler.view.pending = _
    rw [hoffer]
  have hothers : ∀ t, t ≠ b.token → after.snapshotFor t = r.snapshotFor t := by
    intro t ht
    refine Reconciler.snapshotFor_congr fun k => ?_
    rw [hview]
    exact hpays.filter_getElem?_replay hrecords hfresh ht k
  have hfunds : after.funds b.token + (if b.recipient.includes a then 0 else b.amount.toNat) =
      r.funds b.token := by
    have htotal := hpays.total_replay hrecords hfresh
    rw [← hview, ← Reconciler.funds_eq_total, ← Reconciler.funds_eq_total] at htotal
    by_cases hincluded : b.recipient.includes a
    · rw [if_pos hincluded] at htotal ⊢
      omega
    · rw [if_neg hincluded] at htotal ⊢
      omega
  rw [hview]
  refine ⟨hresult, hpending, paid, change, hpays, ?_, ?_, ?_, ?_, hothers, hfunds⟩
  · intro c hc
    exact ⟨(hpays.stored hrecords hc).1, hpays.getElem?_replay_spent hrecords hfresh hc⟩
  · intro c hc
    exact hpays.getElem?_replay_change hrecords hfresh hc
  · exact hpays.getElem?_replay_paid hrecords hfresh
  · intro k hpaid hchange hspent
    exact hpays.getElem?_replay_other hrecords hpaid hchange hspent

end TransferBuilder

/-! ## A part of a coin -/

namespace Sample

/-- Someone else. -/
def stranger : KeySet := KeySet.single ⟨Vector.replicate 32 2⟩

/-- A reconciler that has passed on the atom that creates the coin. -/
def holding : Reconciler :=
  ((Reconciler.fresh scope).accept issue).reconciler

/-- A transfer of four to someone else. -/
def partPayment : TransferBuilder :=
  TransferBuilder.plain coin.token stranger 4

/-- The coin is spent, and six come back. -/
def partSelection : Selection := ⟨[coin], [(stranger, 4), (coin.owners, 6)]⟩

/-- The transfer while it waits for signatures. -/
def partPaid : UnsignedAtom :=
  ⟨partPayment.assemble (.countingFrom 0) 1000 partSelection, partSelection⟩

theorem distinct_coins :
    ([coin, ⟨coin.token, 4, stranger, 0⟩, ⟨coin.token, 6, coin.owners, 1⟩].map Coin.id).Nodup :=
  Coin.nodup_ids_of_leadingBytes (by decide +kernel)

theorem leadingByte_partPaid : partPaid.atom.leadingByte ≠ some 48 := by decide +kernel

theorem distinct_atoms : ([issue, partPaid.atom].map Atom.id).Nodup :=
  Atom.nodup_ids_of_leadingBytes (by simp [leadingByte_issue, Ne.symm leadingByte_partPaid])

theorem holding_reached : holding.Reached (.all address) :=
  .accept .fresh issue

/-- It holds the coin, knows the atom, and nothing waits. -/
theorem view_holding : holding.halted = none ∧ holding.view.pending = ∅ ∧
    holding.view.Records scope [issue] ∧
    holding.view.unconsumed = ExtTreeMap.insert ∅ coin.id coin := by
  obtain ⟨hpassed, hrunning, hpending⟩ :=
    Reconciler.emissions_of_orderly orderly_issue (List.nodup_singleton _)
  have hrecords := Reconciler.records_acceptAll scope [issue]
  rw [hpassed] at hrecords
  refine ⟨hrunning, hpending, hrecords, ?_⟩
  rw [show holding.view.unconsumed = _ from hrecords.unconsumed_eq]
  show LedgerView.replay scope ∅ issue = _
  rw [LedgerView.replay, consumed_issue, issue, Atom.created_creating relevant_coin]
  rfl

theorem snapshotFor_holding : holding.snapshotFor coin.token = [coin] := by
  have hlisted : (ExtTreeMap.insert (∅ : ExtTreeMap ParticleId Coin) coin.id coin).toList =
      [(coin.id, coin)] := by
    have hperm := toList_insert_perm (c := coin) (k := coin.id) (m := ∅) (by simp)
    rw [ExtTreeMap.toList_eq_nil_iff.2 rfl] at hperm
    exact List.perm_singleton.1 hperm
  rw [Reconciler.snapshotFor, Reconciler.snapshot, view_holding.2.2.2, hlisted]
  simp

theorem build_partPayment : partPayment.build (.countingFrom 0) 1000
    (holding.snapshotFor partPayment.token) = .ok partPaid := by
  have hselect : partPayment.select [coin] = .ok partSelection := by
    have hoffered : coinsOf coin.token [coin] = [coin] := by simp [coinsOf]
    show greedyFirstFit (coinsOf coin.token [coin]) 4 stranger = .ok partSelection
    rw [hoffered]
    rfl
  show partPayment.build _ _ (holding.snapshotFor coin.token) = _
  rw [snapshotFor_holding]
  refine TransferBuilder.build_eq_ok_iff.2 ⟨partSelection, hselect, rfl, ?_⟩
  show worthAll coin.token [⟨coin.token, 4, stranger, 0⟩, ⟨coin.token, 6, coin.owners, 1⟩] =
    worthAll coin.token [coin]
  decide

theorem freshFor_holding : partPaid.FreshFor holding.view := by
  obtain ⟨-, hpending, hrecords, hunconsumed⟩ := view_holding
  have hdistinct := List.nodup_cons.1 distinct_coins
  refine ⟨hdistinct.2, ?_, ?_, ?_⟩
  · intro c hc hmem
    rw [hunconsumed, ExtTreeMap.mem_insert, Std.compare_eq_iff_eq] at hmem
    rcases hmem with hid | hmem
    · rw [hid] at hdistinct
      exact hdistinct.1 (List.mem_map_of_mem hc)
    · simp at hmem
  · intro c hc hmem
    rw [hpending] at hmem
    simp at hmem
  · rw [hrecords.applied_iff]
    rintro ⟨e, he, hid⟩
    rw [List.mem_singleton.1 he] at hid
    exact (List.nodup_cons.1 distinct_atoms).1 (by
      rw [hid]
      exact List.mem_singleton_self _)

end Sample

namespace TransferBuilder

/-- A stranger is paid four of ten: six are left. -/
theorem accepted_back_part :
    Sample.partPayment.build (.countingFrom 0) 1000
        (Sample.holding.snapshotFor Sample.partPayment.token) = .ok Sample.partPaid ∧
      (Sample.holding.accept Sample.partPaid.atom).result = .ok [Sample.partPaid.atom] ∧
      (Sample.holding.accept Sample.partPaid.atom).reconciler.funds Sample.coin.token = 6 := by
  have hstranger : ¬Sample.partPayment.recipient.includes Sample.address := by
    decide +kernel
  have hfunds : Sample.holding.funds Sample.coin.token = 10 := by
    rw [Reconciler.funds, Sample.snapshotFor_holding]
    rfl
  obtain ⟨hresult, -, paid, change, -, -, -, -, -, -, hleft⟩ := accepted_back
    Sample.holding_reached Sample.view_holding.1 rfl rfl Sample.build_partPayment
    Sample.freshFor_holding ∅
  rw [if_neg hstranger] at hleft
  have hsix : (Sample.holding.accept Sample.partPaid.atom).reconciler.funds Sample.coin.token + 4 =
      Sample.holding.funds Sample.coin.token := hleft
  exact ⟨Sample.build_partPayment, hresult, by omega⟩

end TransferBuilder

end ParticleLedger
