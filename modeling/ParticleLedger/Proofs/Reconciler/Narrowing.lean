import ParticleLedger.Proofs.Reconciler.Pending
import ParticleLedger.Proofs.Reconciler.Registry

/-!
# Following one token and following all of them

A reconciler that follows one token of an address does not look at the other coins of the address.
It waits for less than the one that follows them all, so it passes atoms on earlier and in another
order. Among atoms free of conflicts the two agree nonetheless: what the narrow one has passed on
contains, at any time, what the wide one has passed on, and once nothing waits in the wide one, both
list the same coins of the token.

The reason is that closure under causes carries over from the narrow scope to the wide one
(`Narrows.causallyClosed`), and that what the wide reconciler has passed on is the least part of what
it has heard of that is closed.

Main statements: `Narrows.emitted_subset`, `Narrows.unconsumed_eq` and `Registry.scopes_agree`.
-/

namespace ParticleLedger

open Std (ExtTreeMap)

/-! ## A scope inside another -/

namespace Scope

variable {narrow wide scope : Scope} {S A T : Set Atom} {x y : Atom} {k : ParticleId} {c d : Coin}

theorem ConflictFree.mono (h : scope.ConflictFree S) (hT : T ⊆ S) : scope.ConflictFree T where
  created_by_one x hx y hy := h.created_by_one x (hT hx) y (hT hy)
  creates_nodup x hx := h.creates_nodup x (hT hx)
  spent_by_one x hx y hy := h.spent_by_one x (hT hx) y (hT hy)

/-- The narrow scope looks at some of the coins of the wide one; and a coin that an atom of `S`
creates and one that an atom of `S` spends are both among those, or neither is, if they have the same
name. -/
structure Narrows (narrow wide : Scope) (S : Set Atom) : Prop where
  relevant : ∀ c, narrow.relevant c → wide.relevant c
  same_name : ∀ x ∈ S, ∀ y ∈ S, ∀ c ∈ x.consumables, ∀ d ∈ y.consumers, c.id = d.id →
    wide.relevant c → wide.relevant d → (narrow.relevant c ↔ narrow.relevant d)

namespace Narrows

variable (h : narrow.Narrows wide S)

include h

theorem mono (hT : T ⊆ S) : narrow.Narrows wide T where
  relevant := h.relevant
  same_name x hx y hy := h.same_name x (hT hx) y (hT hy)

theorem mem_created_iff :
    (k, c) ∈ narrow.created x ↔ (k, c) ∈ wide.created x ∧ narrow.relevant c := by
  rw [mem_created, mem_created]
  constructor
  · rintro ⟨hc, hr, hid⟩
    exact ⟨⟨hc, h.relevant c hr, hid⟩, hr⟩
  · rintro ⟨⟨hc, -, hid⟩, hr⟩
    exact ⟨hc, hr, hid⟩

theorem creates_sublist (x : Atom) : (narrow.creates x).Sublist (wide.creates x) := by
  have hcoins : (x.consumables.filter narrow.relevant).Sublist
      (x.consumables.filter wide.relevant) := List.monotone_filter_right _ h.relevant
  exact (hcoins.map _).map _

theorem consumed_subset (x : Atom) : narrow.consumed x ⊆ wide.consumed x := by
  intro k hk
  obtain ⟨c, hc, hr, hid⟩ := mem_consumed.1 hk
  exact mem_consumed.2 ⟨c, hc, h.relevant c hr, hid⟩

/-- What is free of conflicts in the wide scope is so in the narrow one. -/
theorem conflictFree (hfree : wide.ConflictFree S) : narrow.ConflictFree S where
  created_by_one x hx y hy k hkx hky := hfree.created_by_one x hx y hy k
    ((h.creates_sublist x).subset hkx) ((h.creates_sublist y).subset hky)
  creates_nodup x hx := (hfree.creates_nodup x hx).sublist (h.creates_sublist x)
  spent_by_one x hx y hy k hkx hky := hfree.spent_by_one x hx y hy k
    (h.consumed_subset x hkx) (h.consumed_subset y hky)

/-- What the narrow scope sees spent of a coin that it looks at is what the wide one sees. -/
theorem mem_consumed_of_wide (hx : x ∈ S) (hy : y ∈ S) (hc : (k, c) ∈ wide.created x)
    (hr : narrow.relevant c) (hk : k ∈ wide.consumed y) : k ∈ narrow.consumed y := by
  obtain ⟨hcreated, hrc, rfl⟩ := mem_created.1 hc
  obtain ⟨d, hd, hrd, hid⟩ := mem_consumed.1 hk
  have hsame := h.same_name x hx y hy c hcreated d hd hid.symm hrc hrd
  exact mem_consumed.2 ⟨d, hd, hsame.1 hr, hid⟩

/-- A part that contains every atom whose causes in the narrow scope it contains, contains every atom
whose causes in the wide scope it contains. -/
theorem causallyClosed (hA : A ⊆ S) (hclosed : narrow.CausallyClosed S A) :
    wide.CausallyClosed S A := by
  intro y hy hcreated
  refine hclosed y hy fun k hk => ?_
  obtain ⟨d, hd, hrd, rfl⟩ := mem_consumed.1 hk
  obtain ⟨x, hx, hkx⟩ := hcreated d.id (h.consumed_subset y hk)
  obtain ⟨c, hc⟩ := mem_creates.1 hkx
  obtain ⟨hcx, hrc, hid⟩ := mem_created.1 hc
  have hsame := h.same_name x (hA hx) y hy c hcx d hd hid hrc (h.relevant d hrd)
  exact ⟨x, hx, mem_creates.2 ⟨c, h.mem_created_iff.2 ⟨hc, hsame.2 hrd⟩⟩⟩

end Narrows

end Scope

/-! ## The two views -/

theorem Settling.getElem?_unconsumed_iff_bare {scope : Scope} {S : Set Atom}
    {heard emitted work : List Atom} {s : LedgerView} (hfree : scope.ConflictFree S)
    (h : Settling scope S heard s emitted work) {k : ParticleId} {c : Coin} :
    s.unconsumed[k]? = some c ↔
      (∃ x ∈ bareAtoms emitted, (k, c) ∈ scope.created x) ∧
        ∀ x ∈ bareAtoms emitted, k ∉ scope.consumed x := by
  rw [h.getElem?_unconsumed_iff hfree]
  simp [bareAtoms]

/-- With no work left, nothing waits if all that was heard of has been passed on, and only then. -/
theorem Settling.pending_eq_empty_iff {scope : Scope} {S : Set Atom} {heard emitted : List Atom}
    {s : LedgerView} (hnames : S.InjOn Atom.id) (h : Settling scope S heard s emitted [])
    (hS : bareAtoms heard = S) : s.pending = ∅ ↔ bareAtoms emitted = S := by
  constructor
  · intro hempty
    refine h.bareAtoms_emitted_subset.antisymm fun x hx => ?_
    by_contra hnot
    obtain ⟨k, b, hb, -⟩ := h.exists_waiting hnames hS ⟨hx, hnot⟩
    simp [hempty] at hb
  · intro hall
    apply ExtTreeMap.ext_getElem?
    intro k
    cases hb : s.pending[k]? with
    | none => simp
    | some b =>
      have hsent : b.bare ∈ bareAtoms emitted := hall ▸ h.waiting.waiting_mem k b hb
      exact absurd hsent (h.bare_notMem_of_waiting hb)

namespace Scope.Narrows

variable {narrow wide : Scope} {S : Set Atom} {heard emitted emitted' : List Atom}
  {s s' : LedgerView}

/-- What the wide reconciler has passed on, the narrow one has passed on. -/
theorem emitted_subset (h : narrow.Narrows wide S) (hnames : S.InjOn Atom.id)
    (hfree : wide.ConflictFree S) (hS : bareAtoms heard = S)
    (hwide : Settling wide S heard s emitted [])
    (hnarrow : Settling narrow S heard s' emitted' []) : bareAtoms emitted ⊆ bareAtoms emitted' := by
  obtain ⟨⟨hmem, hclosed⟩, -⟩ := hnarrow.isLeast_emitted hnames (h.conflictFree hfree) hS
  exact (hwide.isLeast_emitted hnames hfree hS).2 ⟨hmem, h.causallyClosed hmem hclosed⟩

/-- Once nothing waits in the wide reconciler, the unspent coins of the narrow one are those of the
wide one that it looks at. -/
theorem unconsumed_eq (h : narrow.Narrows wide S) (hnames : S.InjOn Atom.id)
    (hfree : wide.ConflictFree S) (hS : bareAtoms heard = S)
    (hwide : Settling wide S heard s emitted [])
    (hnarrow : Settling narrow S heard s' emitted' []) (hempty : s.pending = ∅) :
    s'.unconsumed = s.unconsumed.filter fun _ c => narrow.relevant c := by
  have hall : bareAtoms emitted = S := (hwide.pending_eq_empty_iff hnames hS).1 hempty
  have hall' : bareAtoms emitted' = S := by
    apply hnarrow.bareAtoms_emitted_subset.antisymm
    calc S = bareAtoms emitted := hall.symm
      _ ⊆ bareAtoms emitted' := h.emitted_subset hnames hfree hS hwide hnarrow
  apply ExtTreeMap.ext_getElem?
  intro k
  rw [ExtTreeMap.getElem?_filter']
  ext c
  -- Both have passed on everything, so both conditions are about the atoms of `S`.
  rw [Option.filter_eq_some_iff, hnarrow.getElem?_unconsumed_iff_bare (h.conflictFree hfree),
    hwide.getElem?_unconsumed_iff_bare hfree, hall, hall']
  constructor
  · rintro ⟨⟨x, hx, hc⟩, hunspent⟩
    obtain ⟨hcreated, hr⟩ := h.mem_created_iff.1 hc
    exact ⟨⟨⟨x, hx, hcreated⟩, fun y hy hk =>
      hunspent y hy (h.mem_consumed_of_wide hx hy hcreated hr hk)⟩, hr⟩
  · rintro ⟨⟨⟨x, hx, hcreated⟩, hunspent⟩, hr⟩
    exact ⟨⟨x, hx, h.mem_created_iff.2 ⟨hcreated, hr⟩⟩, fun y hy hk =>
      hunspent y hy (h.consumed_subset y hk)⟩

end Scope.Narrows

/-! ## Deliveries -/

theorem Registry.relevant_everything {a : Address} {c : Coin} :
    (Registry.everything a).relevant c ↔ c.ownedBy a := by
  simp [Scope.relevant, Registry.everything, TokenFilter.accepts]

namespace Reconciler

variable {narrow wide : Scope} {S : Set Atom} {delivered : List Atom}

/-- What is passed on was delivered. -/
theorem mem_delivered_of_mem_emissions {scope : Scope} {e : Atom}
    (hrun : ((fresh scope).acceptAll delivered).halted = none)
    (he : e ∈ (fresh scope).emissions delivered) : e ∈ delivered :=
  (unsent_acceptAll hrun).kept.emitted_mem e he

/-- Of the unspent coins of an address, the scope of a token looks at those of the token. -/
theorem filter_relevant_unconsumed {a : Address} {t : TokenRef} (offered : List Atom) :
    (((fresh (Registry.everything a)).acceptAll offered).view.unconsumed.filter
        fun _ c => Scope.relevant ⟨a, .only t⟩ c) =
      ((fresh (Registry.everything a)).acceptAll offered).view.unconsumed.filter
        fun _ c => c.token = t := by
  apply ExtTreeMap.ext_getElem?
  intro k
  rw [ExtTreeMap.getElem?_filter', ExtTreeMap.getElem?_filter']
  cases hc : ((fresh (Registry.everything a)).acceptAll offered).view.unconsumed[k]? with
  | none => rfl
  | some c =>
    rw [(records_acceptAll (Registry.everything a) offered).unconsumed_eq] at hc
    have howned : c.ownedBy a := Registry.relevant_everything.1 (LedgerView.named_of_replayAll hc).2
    simp [Option.filter, Scope.relevant, TokenFilter.accepts, howned, eq_comm]

/-- The wide and the narrow reconciler agree after the same deliveries. Where an atom is delivered in
one copy only, it is that copy that both pass on. -/
theorem narrow_agrees (h : narrow.Narrows wide S) (hnames : S.InjOn Atom.id)
    (hfree : wide.ConflictFree S) (hS : ∀ d ∈ delivered, d.bare ∈ S) :
    bareAtoms ((fresh wide).emissions delivered) ⊆ bareAtoms ((fresh narrow).emissions delivered) ∧
    ({d | d ∈ delivered}.InjOn Atom.id →
      (fresh wide).emissions delivered ⊆ (fresh narrow).emissions delivered) ∧
    (((fresh wide).acceptAll delivered).view.pending = ∅ →
      ((fresh narrow).acceptAll delivered).view.unconsumed =
        ((fresh wide).acceptAll delivered).view.unconsumed.filter fun _ c => narrow.relevant c) := by
  -- Only what was delivered matters.
  have hsub : bareAtoms delivered ⊆ S := by
    rintro _ ⟨d, hd, rfl⟩
    exact hS d hd
  have hself : ∀ d ∈ delivered, d.bare ∈ bareAtoms delivered := fun d hd => ⟨d, hd, rfl⟩
  have hnames : (bareAtoms delivered).InjOn Atom.id := hnames.mono hsub
  have hfree : wide.ConflictFree (bareAtoms delivered) := hfree.mono hsub
  have h : narrow.Narrows wide (bareAtoms delivered) := h.mono hsub
  obtain ⟨hrunWide, hwide⟩ := settling_acceptAll hnames hfree hself
  obtain ⟨hrunNarrow, hnarrow⟩ := settling_acceptAll hnames (h.conflictFree hfree) hself
  have hpassed := h.emitted_subset hnames hfree rfl hwide hnarrow
  refine ⟨hpassed, fun hcopies e he => ?_, h.unconsumed_eq hnames hfree rfl hwide hnarrow⟩
  obtain ⟨e', he', hbare⟩ := hpassed ⟨e, he, rfl⟩
  have hsame : e' = e := hcopies (mem_delivered_of_mem_emissions hrunNarrow he')
    (mem_delivered_of_mem_emissions hrunWide he) (Atom.id_eq_of_bare hbare)
  exact hsame ▸ he'

end Reconciler

/-! ## In a registry -/

/-- Among the atoms of `S`, coins of the address that have the same name are of the same token. Names
are digests, so this says that the digests of two coins of different tokens do not collide. -/
def NamesTellTokens (a : Address) (S : Set Atom) : Prop :=
  ∀ x ∈ S, ∀ y ∈ S, ∀ c ∈ x.consumables, ∀ d ∈ y.consumers, c.ownedBy a → d.ownedBy a →
    c.id = d.id → c.token = d.token

theorem NamesTellTokens.narrows {a : Address} {t : TokenRef} {S : Set Atom}
    (h : NamesTellTokens a S) : Scope.Narrows ⟨a, .only t⟩ (Registry.everything a) S where
  relevant c hc := by
    rw [Scope.relevant, Bool.and_eq_true] at hc
    exact Registry.relevant_everything.2 hc.1
  same_name x hx y hy c hc d hd hid hrc hrd := by
    have hoc : c.ownedBy a := Registry.relevant_everything.1 hrc
    have hod : d.ownedBy a := Registry.relevant_everything.1 hrd
    have htoken : c.token = d.token := h x hx y hy c hc d hd hoc hod hid
    simp [Scope.relevant, hoc, hod, htoken]

namespace Registry

/-- **One token agrees with all of them.** A registry holds the reconciler of all tokens of an address
and that of one of them, and takes atoms for the address in any order and any number of times, the
atoms being free of conflicts in the coins of the address. Whatever the first of the two has passed
on, the second has passed on as well, if not always in the same copy; and if nothing waits in the
first, both list the same coins of the token. -/
theorem scopes_agree (reg : Registry) (a : Address) (t : TokenRef) (S : Set Atom)
    (calls : List Call) (hwide : reg.HoldsFresh (everything a))
    (hnarrow : reg.HoldsFresh ⟨a, .only t⟩) (hnames : S.InjOn Atom.id)
    (htokens : NamesTellTokens a S) (hfree : (everything a).ConflictFree S)
    (hS : ∀ x ∈ calls.filterMap (·.atomFor? a), x.bare ∈ S) :
    (∀ e ∈ reg.passedOn (everything a) calls,
      ∃ e' ∈ reg.passedOn ⟨a, .only t⟩ calls, e'.bare = e.bare) ∧
    ({x | x ∈ calls.filterMap (·.atomFor? a)}.InjOn Atom.id →
      reg.passedOn (everything a) calls ⊆ reg.passedOn ⟨a, .only t⟩ calls) ∧
    ∃ wide narrow, (reg.callAll calls).get? (everything a) = some wide ∧
      (reg.callAll calls).get? ⟨a, .only t⟩ = some narrow ∧
      (wide.pendingLen = 0 → wide.snapshotFor t = narrow.snapshot) := by
  obtain ⟨hwideAlone, hwidePassed⟩ := alone_callAll_of_some hwide calls
  obtain ⟨hnarrowAlone, hnarrowPassed⟩ := alone_callAll_of_some hnarrow calls
  obtain ⟨wide, hgetWide, hwideEq⟩ := Option.map_eq_some_iff.1 hwideAlone
  obtain ⟨narrow, hgetNarrow, hnarrowEq⟩ := Option.map_eq_some_iff.1 hnarrowAlone
  obtain ⟨hpassed, hcopies, hcoins⟩ :=
    Reconciler.narrow_agrees (htokens.narrows (t := t)) hnames hfree hS
  rw [hwidePassed, hnarrowPassed]
  refine ⟨fun e he => hpassed ⟨e, he, rfl⟩, hcopies, wide, narrow, hgetWide, hgetNarrow,
    fun hnone => ?_⟩
  have hpending : wide.alone.view.pending = ∅ := ExtTreeMap.eq_empty_iff_size_eq_zero.2 hnone
  have hunspent : narrow.alone.view.unconsumed =
      wide.alone.view.unconsumed.filter fun _ c => c.token = t := by
    rw [hwideEq] at hpending ⊢
    rw [hnarrowEq, hcoins hpending]
    exact Reconciler.filter_relevant_unconsumed _
  show wide.alone.snapshotFor t = narrow.alone.snapshot
  rw [Reconciler.snapshotFor_eq, Reconciler.snapshot, hunspent]

end Registry

/-! ## A coin that one of them does not look at -/

namespace Sample

/-- Creates the coin of the other token. -/
def issueGold : Atom := .creating gold 6

/-- Spends it. -/
def spendGold : Atom := .spending [gold] 7

@[simp] theorem consumed_issueGold : scope.consumed issueGold = [] := Atom.consumed_creating

@[simp] theorem consumed_spendGold : scope.consumed spendGold = [gold.id] :=
  Atom.consumed_spending (by simp [relevant_gold])

@[simp] theorem creates_issueGold : scope.creates issueGold = [gold.id] :=
  Atom.creates_creating relevant_gold

@[simp] theorem creates_spendGold : scope.creates spendGold = [] := Atom.creates_spending

theorem leadingBytes_golden :
    issueGold.leadingByte = some 182 ∧ spendGold.leadingByte = some 56 := by
  decide +kernel

theorem leadingByte_issueGold : issueGold.leadingByte = some 182 := leadingBytes_golden.1

theorem leadingByte_spendGold : spendGold.leadingByte = some 56 := leadingBytes_golden.2

theorem distinct_gold : ([issue, issueGold, spendGold].map Atom.id).Nodup :=
  Atom.nodup_ids_of_leadingBytes (by
    simp [leadingByte_issue, leadingByte_issueGold, leadingByte_spendGold])

/-- The atoms over both coins. -/
def trade : Set Atom := {issue, issueGold, spendGold}

theorem injOn_trade : trade.InjOn Atom.id := by
  rintro x hx y hy hid
  refine List.inj_on_of_nodup_map distinct_gold ?_ ?_ hid
  · simpa [trade] using hx
  · simpa [trade] using hy

theorem conflictFree_trade : scope.ConflictFree trade := by
  refine ⟨?_, ?_, ?_⟩ <;> simp [trade, coin_id_ne_gold_id, coin_id_ne_gold_id.symm]

theorem namesTellTokens_trade : NamesTellTokens address trade := by
  intro x hx y hy c hc d hd _ _ hid
  have hcreated : c = coin ∨ c = gold := by
    rcases hx with rfl | rfl | rfl
    · exact .inl (by simpa [issue] using hc)
    · exact .inr (by simpa [issueGold] using hc)
    · simp [spendGold] at hc
  have hspent : d = gold := by
    rcases hy with rfl | rfl | rfl
    · simp [issue] at hd
    · simp [issueGold] at hd
    · simpa [spendGold] using hd
  subst hspent
  rcases hcreated with rfl | rfl
  · exact absurd hid coin_id_ne_gold_id
  · rfl

/-- The atoms, the one that spends first. -/
def spendFirst : List Atom := [spendGold, issue, issueGold]

theorem bareAtoms_spendFirst : bareAtoms spendFirst = trade := by
  ext x
  simp only [bareAtoms, spendFirst, trade, Set.mem_image, Set.mem_ofPred_eq, List.mem_cons,
    List.not_mem_nil, or_false, Set.mem_insert_iff, Set.mem_singleton_iff]
  constructor
  · rintro ⟨_, rfl | rfl | rfl, rfl⟩
    · exact .inr (.inr rfl)
    · exact .inl rfl
    · exact .inr (.inl rfl)
  · rintro (rfl | rfl | rfl)
    · exact ⟨_, .inr (.inl rfl), rfl⟩
    · exact ⟨_, .inr (.inr rfl), rfl⟩
    · exact ⟨_, .inl rfl, rfl⟩

/-- Once all of them were delivered, nothing waits. -/
theorem pending_spendFirst :
    ((Reconciler.fresh scope).acceptAll spendFirst).view.pending = ∅ := by
  have hself : ∀ d ∈ spendFirst, d.bare ∈ trade := fun d hd => bareAtoms_spendFirst ▸ ⟨d, hd, rfl⟩
  obtain ⟨-, hsettling⟩ :=
    Reconciler.settling_acceptAll injOn_trade conflictFree_trade hself
  obtain ⟨⟨hsub, hclosed⟩, -⟩ :=
    hsettling.isLeast_emitted injOn_trade conflictFree_trade bareAtoms_spendFirst
  rw [hsettling.pending_eq_empty_iff injOn_trade bareAtoms_spendFirst]
  have hgold : issueGold ∈ bareAtoms ((Reconciler.fresh scope).emissions spendFirst) :=
    hclosed _ (.inr (.inl rfl)) (by simp)
  refine hsub.antisymm ?_
  rintro _ (rfl | rfl | rfl)
  · exact hclosed _ (.inl rfl) (by simp)
  · exact hgold
  · exact hclosed _ (.inr (.inr rfl)) fun k hk => ⟨_, hgold, by simpa using hk⟩

/-- A registry asked to follow all tokens of the account and one of them. -/
def following : Registry :=
  Registry.empty.callAll [.subscribe address, .ensure ⟨address, .only coin.token⟩]

theorem following_everything : following.HoldsFresh (Registry.everything address) :=
  Registry.holdsFresh_callAll (by decide) (by decide)

theorem following_only : following.HoldsFresh ⟨address, .only coin.token⟩ :=
  Registry.holdsFresh_callAll (by decide) (by decide)

/-- The atoms brought to the registry, which visits its reconcilers backwards. -/
def bringing : List Registry.Call :=
  spendFirst.map (.accept ⟨List.reverse, List.reverse_perm⟩ address)

theorem atomsFor_bringing : bringing.filterMap (·.atomFor? address) = spendFirst := by
  simp [bringing, List.filterMap_map, Registry.Call.atomFor?]

end Sample

namespace Registry

/-- One atom spends a coin of another token before it is created: it waits in the reconciler of all
tokens only, and in the end both list the same. -/
theorem scopes_agree_spend_first :
    let narrow : Scope := ⟨Sample.address, .only Sample.coin.token⟩
    let after := Sample.following.callAll Sample.bringing
    Sample.following.HoldsFresh (everything Sample.address) ∧ Sample.following.HoldsFresh narrow ∧
      Sample.trade.InjOn Atom.id ∧ NamesTellTokens Sample.address Sample.trade ∧
      (everything Sample.address).ConflictFree Sample.trade ∧
      ∃ r q, after.get? (everything Sample.address) = some r ∧ after.get? narrow = some q ∧
        r.pendingLen = 0 ∧ r.snapshotFor Sample.coin.token = q.snapshot := by
  intro narrow after
  have hbrought : ∀ x ∈ Sample.bringing.filterMap (·.atomFor? Sample.address),
      x.bare ∈ Sample.trade := by
    rw [Sample.atomsFor_bringing, ← Sample.bareAtoms_spendFirst]
    exact fun x hx => ⟨x, hx, rfl⟩
  obtain ⟨-, -, r, q, hr, hq, hagree⟩ := scopes_agree Sample.following Sample.address
    Sample.coin.token Sample.trade Sample.bringing Sample.following_everything
    Sample.following_only Sample.injOn_trade Sample.namesTellTokens_trade Sample.conflictFree_trade
    hbrought
  have halone := (alone_callAll_of_some Sample.following_everything Sample.bringing).1
  rw [hr, Option.map_some, Option.some_inj, show (everything Sample.address).address =
    Sample.address from rfl, Sample.atomsFor_bringing] at halone
  have hnone : r.pendingLen = 0 := by
    show r.alone.view.pending.size = 0
    rw [halone]
    exact ExtTreeMap.eq_empty_iff_size_eq_zero.1 Sample.pending_spendFirst
  exact ⟨Sample.following_everything, Sample.following_only, Sample.injOn_trade,
    Sample.namesTellTokens_trade, Sample.conflictFree_trade, r, q, hr, hq, hnone, hagree hnone⟩

end Registry

end ParticleLedger
