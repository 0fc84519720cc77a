import Mathlib.Algebra.Order.BigOperators.Group.Finset
import ParticleLedger.Proofs.Atom.Plain
import ParticleLedger.Proofs.Balance.Holdings

/-!
# Balances and what can be spent

The balance of a token is kept as a number, beside the unspent coins themselves. An atom moves the
two apart by exactly the difference between what it says it spends, each consumer counted, and what
the distinct coins that it takes out were worth. With names that determine their coins the first is
never less than the second, and they are equal unless the atom lists a coin of value twice.

Main statements: `excess_concat` (the step), `declared_eq_taken_iff`, `balance_exact` and
`balance_below_zero`.
-/

namespace ParticleLedger

open Coin (worth worthAll)
open LedgerView (replayAll)
open Std (ExtTreeMap)

namespace Atom

variable {address : Address} {t : TokenRef} {e : Atom} {coins : ExtTreeMap ParticleId Coin}

/-- What the atom says it spends of a token, each of its consumers counted. -/
def declared (address : Address) (t : TokenRef) (e : Atom) : Int :=
  worthAll t (e.spends address)

/-- What the coins that the atom takes out of a map are worth, each name counted once. -/
def taken (address : Address) (t : TokenRef) (coins : ExtTreeMap ParticleId Coin) (e : Atom) :
    Int :=
  ∑ k ∈ ((e.spends address).map Coin.id).toFinset, worthAt t coins k

/-- The atom lists every coin of value that it spends of the address once. -/
def ListsOnce (address : Address) (e : Atom) : Prop :=
  ∀ c ∈ e.spends address, c.quantity ≠ 0 → (e.spends address).count c = 1

theorem declared_eq_sum :
    e.declared address t =
      ∑ c ∈ (e.spends address).toFinset, (e.spends address).count c • c.worth t :=
  Finset.sum_list_map_count _ _

/-- If names tell the listed coins apart and each of them is stored, the coins taken out are worth
what the distinct ones of the list are worth. -/
theorem taken_eq_sum (hnames : Set.InjOn Coin.id {c | c ∈ e.spends address})
    (hstored : ∀ c ∈ e.spends address, coins[c.id]? = some c) :
    e.taken address t coins = ∑ c ∈ (e.spends address).toFinset, c.worth t := by
  have himage : ((e.spends address).map Coin.id).toFinset =
      (e.spends address).toFinset.image Coin.id := by
    ext k
    simp
  rw [taken, himage, Finset.sum_image (by simpa using hnames)]
  refine Finset.sum_congr rfl fun c hc => ?_
  rw [worthAt, hstored c (by simpa using hc), Option.elim_some]

theorem worth_le_count_smul {c : Coin} (hc : c ∈ (e.spends address).toFinset) :
    c.worth t ≤ (e.spends address).count c • c.worth t := by
  have hpos : 1 ≤ (e.spends address).count c := List.one_le_count_iff.2 (by simpa using hc)
  simpa using nsmul_le_nsmul_left (Coin.worth_nonneg (t := t) (c := c)) hpos

variable (hnames : Set.InjOn Coin.id {c | c ∈ e.spends address})
  (hstored : ∀ c ∈ e.spends address, coins[c.id]? = some c)
include hnames hstored

/-- An atom never says that it spends less than it takes out. -/
theorem taken_le_declared : e.taken address t coins ≤ e.declared address t := by
  rw [taken_eq_sum hnames hstored, declared_eq_sum]
  exact Finset.sum_le_sum fun c hc => worth_le_count_smul hc

/-- An atom takes out what it says it spends exactly if it lists every coin of value once. -/
theorem declared_eq_taken_iff :
    (∀ t, e.declared address t = e.taken address t coins) ↔ e.ListsOnce address := by
  have hcount : ∀ t, e.declared address t = e.taken address t coins ↔
      ∀ c ∈ (e.spends address).toFinset, c.worth t = (e.spends address).count c • c.worth t := by
    intro t
    rw [taken_eq_sum hnames hstored, declared_eq_sum, eq_comm]
    exact Finset.sum_eq_sum_iff_of_le fun c hc => worth_le_count_smul hc
  simp only [hcount, List.mem_toFinset]
  constructor
  · intro h c hc hvalue
    have heq := h c.token c hc
    have hpos : 0 < c.quantity.toNat := Nat.pos_of_ne_zero fun hz => hvalue (UInt64.toNat_inj.1 hz)
    simp only [worth, if_true, nsmul_eq_mul] at heq
    have hne : (c.quantity.toNat : Int) ≠ 0 := by omega
    have hone : ((e.spends address).count c : Int) = 1 :=
      mul_right_cancel₀ hne (by rw [one_mul, ← heq])
    exact_mod_cast hone
  · intro h t c hc
    by_cases hvalue : c.quantity = 0
    · simp [worth, hvalue]
    · rw [h c hc hvalue, one_nsmul]

end Atom

namespace Holdings

variable {address : Address} {t : TokenRef} {history : List Atom} {e : Atom}

/-- By how much the balance of a token exceeds what can be spent of it after a history. -/
def excess (address : Address) (t : TokenRef) (history : List Atom) : Int :=
  (balanceReducer.foldAtoms address .none history).balance t -
    (balanceReducer.foldAtoms address .none history).spendable t

theorem excess_nil : excess address t [] = 0 := by
  simp [excess, Reducer.foldAtoms, spendable_eq_total, none, balance]

/-- An atom lets the balance fall behind by what it says it spends beyond what it takes out. -/
theorem excess_concat (horderly : (Scope.all address).Orderly (history ++ [e])) :
    excess address t (history ++ [e]) = excess address t history -
      (e.declared address t - e.taken address t (replayAll (.all address) history)) := by
  obtain ⟨hbefore, hfits⟩ := Scope.orderly_concat_iff.1 horderly
  have hcreated : ((Scope.all address).created e).map (·.2) = e.makes address := by
    rw [Scope.created_all, List.map_map]
    exact List.map_id _
  have hvalue := total_replay (t := t) hfits
  rw [hcreated, Scope.consumed_all] at hvalue
  unfold excess Atom.declared Atom.taken
  rw [spendable_eq_total, spendable_eq_total, unconsumed_foldAtoms horderly,
    unconsumed_foldAtoms hbefore, LedgerView.replayAll_concat, hvalue, foldAtoms_concat,
    balance_foldAtom]
  omega

/-- Balances are what can be spent, after every prefix of a history, exactly if each of its atoms
takes out what it says it spends. -/
theorem excess_eq_zero_iff (horderly : (Scope.all address).Orderly history) :
    (∀ first, first <+: history → ∀ t, excess address t first = 0) ↔
      ∀ before e after, history = before ++ e :: after →
        ∀ t, e.declared address t = e.taken address t (replayAll (.all address) before) := by
  constructor
  · rintro h before e after rfl t
    have hinit : before ++ [e] <+: before ++ e :: after := ⟨after, by simp⟩
    have hbefore := h before (List.prefix_append _ _) t
    have hafter := h (before ++ [e]) hinit t
    rw [excess_concat (horderly.of_prefix hinit)] at hafter
    omega
  · intro h first
    induction first using List.reverseRecOn with
    | nil => exact fun _ t => excess_nil
    | append_singleton first e ih =>
      intro hinit t
      obtain ⟨after, heq⟩ := hinit
      have hstep := h first e after (by simp [← heq]) t
      rw [excess_concat (horderly.of_prefix ⟨after, heq⟩), hstep,
        ih ⟨e :: after, by simp [← heq]⟩ t]
      omega

/-- The names of the coins of an address that the atoms of a history spend or create tell these
coins apart. -/
def NamesDetermineCoins (address : Address) (history : List Atom) : Prop :=
  Set.InjOn Coin.id {c | ∃ e ∈ history, c ∈ e.spends address ∨ c ∈ e.makes address}

/-- If names determine coins, the very coins that an atom spends are there. -/
theorem NamesDetermineCoins.stored {before after : List Atom}
    (hnames : NamesDetermineCoins address (before ++ e :: after))
    (hfits : (Scope.all address).Fits (replayAll (.all address) before) e) :
    ∀ c ∈ e.spends address, (replayAll (.all address) before)[c.id]? = some c := by
  intro c hc
  have hpresent : c.id ∈ replayAll (.all address) before :=
    hfits.spends_present c.id (by rw [Scope.consumed_all]; exact List.mem_map_of_mem hc)
  obtain ⟨_, hd⟩ := Option.isSome_iff_exists.1 (ExtTreeMap.mem_iff_isSome_getElem?.1 hpresent)
  obtain ⟨x, hx, hcreated⟩ := LedgerView.getElem?_replayAll hd
  simp only [Scope.created_all, List.mem_map, Prod.mk.injEq] at hcreated
  obtain ⟨stored, hmade, hid, rfl⟩ := hcreated
  have hsame : stored = c := by
    unfold NamesDetermineCoins at hnames
    exact hnames ⟨x, by simp [hx], .inr hmade⟩ ⟨e, by simp, .inl hc⟩ hid
  rw [hd, hsame]

theorem NamesDetermineCoins.injOn {before after : List Atom}
    (hnames : NamesDetermineCoins address (before ++ e :: after)) :
    Set.InjOn Coin.id {c | c ∈ e.spends address} := by
  unfold NamesDetermineCoins at hnames
  intro c hc d hd hid
  exact hnames ⟨e, by simp, .inl hc⟩ ⟨e, by simp, .inl hd⟩ hid

/-- If names determine coins, balances never exceed what can be spent. -/
theorem NamesDetermineCoins.excess_nonpos (horderly : (Scope.all address).Orderly history)
    (hnames : NamesDetermineCoins address history) {first : List Atom}
    (hinit : first <+: history) : excess address t first ≤ 0 := by
  induction first using List.reverseRecOn with
  | nil => exact excess_nil.le
  | append_singleton first e ih =>
    obtain ⟨after, rfl⟩ := hinit
    rw [List.append_assoc, List.singleton_append] at hnames
    have hfits := (Scope.orderly_concat_iff.1 (horderly.of_prefix ⟨after, rfl⟩)).2
    have hle := Atom.taken_le_declared (t := t) hnames.injOn (hnames.stored hfits)
    have hbefore := ih ⟨e :: after, by simp⟩
    rw [excess_concat (horderly.of_prefix ⟨after, rfl⟩)]
    omega

end Holdings

namespace Sample

@[simp] theorem spends_issue : issue.spends address = [] := rfl

@[simp] theorem makes_issue : issue.makes address = [coin] := by
  simp [Atom.makes, issue, ownedBy_coin]

@[simp] theorem spends_spend : spend.spends address = [coin] := by
  simp [Atom.spends, spend, ownedBy_coin]

@[simp] theorem makes_spend : spend.makes address = [] := rfl

@[simp] theorem spends_overspend : overspend.spends address = [coin, coin] := by
  simp [Atom.spends, overspend, ownedBy_coin]

@[simp] theorem makes_overspend : overspend.makes address = [] := rfl

theorem replayAll_overspend : replayAll scope [issue, overspend] = ∅ := by
  rw [show [issue, overspend] = ([] ++ [issue]) ++ [overspend] from rfl,
    LedgerView.replayAll_concat, LedgerView.replayAll_concat,
    ExtTreeMap.eq_empty_iff_forall_not_mem]
  simp [LedgerView.mem_replay]

end Sample

namespace Reconciler

open Holdings (NamesDetermineCoins)

/-- Along whatever a reconciler of all tokens passes on, the balances of its address are what can be
spent exactly if each atom takes out what it says it spends, and then none is negative. If names
determine coins, that is so exactly if each atom lists every coin of value once, and balances never
exceed what can be spent. -/
theorem balance_exact (address : Address) (offered : List Atom) :
    let emitted := (fresh (.all address)).emissions offered
    let holdings := balanceReducer.foldAtoms address .none
    let agree := ∀ first, first <+: emitted → ∀ t,
      (holdings first).balance t = (holdings first).spendable t
    (agree ↔ ∀ before e after, emitted = before ++ e :: after →
      ∀ t, e.declared address t = e.taken address t (replayAll (.all address) before)) ∧
    (agree → ∀ first, first <+: emitted → ∀ t, 0 ≤ (holdings first).balance t) ∧
    (NamesDetermineCoins address emitted →
      (agree ↔ ∀ e ∈ emitted, e.ListsOnce address) ∧
      ∀ first, first <+: emitted → ∀ t,
        (holdings first).balance t ≤ (holdings first).spendable t) := by
  intro emitted holdings agree
  have horderly : (Scope.all address).Orderly emitted :=
    (records_acceptAll (.all address) offered).orderly
  have hexact : agree ↔ ∀ before e after, emitted = before ++ e :: after →
      ∀ t, e.declared address t = e.taken address t (replayAll (.all address) before) := by
    rw [← Holdings.excess_eq_zero_iff horderly]
    simp only [agree, Holdings.excess, sub_eq_zero, holdings]
  refine ⟨hexact, ?_, fun hnames => ⟨?_, ?_⟩⟩
  · intro hagree first hinit t
    rw [hagree first hinit t]
    exact Holdings.spendable_nonneg
  · rw [hexact]
    constructor
    · intro h e he
      obtain ⟨before, after, heq⟩ := List.append_of_mem he
      rw [heq] at hnames
      exact (Atom.declared_eq_taken_iff hnames.injOn
        (hnames.stored (horderly before e after heq))).1 (h before e after heq)
    · intro h before e after heq
      rw [heq] at hnames
      exact (Atom.declared_eq_taken_iff hnames.injOn
        (hnames.stored (horderly before e after heq))).2 (h e (by simp [heq]))
  · intro first hinit t
    have hle := hnames.excess_nonpos horderly hinit (t := t)
    rw [Holdings.excess] at hle
    exact sub_nonpos.1 hle

/-- Where a coin is created and spent once, balances are what can be spent. -/
theorem balance_exact_spend :
    let emitted := (fresh Sample.scope).emissions [Sample.issue, Sample.spend]
    NamesDetermineCoins Sample.address emitted ∧
      ∀ first, first <+: emitted → ∀ t,
        (balanceReducer.foldAtoms Sample.address .none first).balance t =
          (balanceReducer.foldAtoms Sample.address .none first).spendable t := by
  intro emitted
  have hpassed : emitted = [Sample.issue, Sample.spend] :=
    (emissions_of_orderly Sample.orderly_spend Sample.distinct_spend).1
  have hnames : NamesDetermineCoins Sample.address emitted := by
    simp [NamesDetermineCoins, Set.InjOn, hpassed]
  refine ⟨hnames, (((balance_exact Sample.address _).2.2 hnames).1).2 ?_⟩
  show ∀ e ∈ emitted, e.ListsOnce Sample.address
  simp [hpassed, Atom.ListsOnce]

/-- An atom that lists a coin twice among those that it spends is passed on; it leaves nothing that
could be spent, and a balance below zero. -/
theorem balance_below_zero :
    let emitted := (fresh Sample.scope).emissions [Sample.issue, Sample.overspend]
    let holdings := balanceReducer.foldAtoms Sample.address .none emitted
    emitted = [Sample.issue, Sample.overspend] ∧
      holdings.balance Sample.coin.token = -10 ∧
      holdings.unconsumedFor Sample.coin.token = [] := by
  intro emitted holdings
  have hpassed : emitted = [Sample.issue, Sample.overspend] :=
    (emissions_of_orderly Sample.orderly_overspend Sample.distinct_overspend).1
  have horderly : (Scope.all Sample.address).Orderly emitted := by
    rw [hpassed]
    exact Sample.orderly_overspend
  have hcoins : holdings.unconsumed = ∅ := by
    rw [Holdings.unconsumed_foldAtoms horderly, hpassed]
    exact Sample.replayAll_overspend
  refine ⟨hpassed, ?_, ?_⟩
  · have hworth : Sample.coin.worth Sample.coin.token = 10 := by decide
    have hfold : holdings = balanceReducer.foldAtom Sample.address
        (balanceReducer.foldAtom Sample.address .none Sample.issue) Sample.overspend := by
      rw [show holdings = balanceReducer.foldAtoms Sample.address .none emitted from rfl, hpassed]
      rfl
    rw [hfold, Holdings.balance_foldAtom, Holdings.balance_foldAtom]
    simp [hworth, Holdings.balance, Holdings.none]
  · rw [Holdings.unconsumedFor, hcoins, ExtTreeMap.toList_eq_nil_iff.2 rfl]
    rfl

end Reconciler

end ParticleLedger
