import ParticleLedger.Proofs.Balance.Value
import ParticleLedger.Proofs.Reconciler.History
import ParticleLedger.Reducer

/-!
# Holdings after a history

Balances are folded one particle after another, in the order of the atom and without any check,
whereas a view takes out all that an atom spends before it puts in what the atom creates. The two
come to the same for an atom that creates nothing of what it spends.

Main statements: `unconsumed_foldAtoms` (the unspent coins after an orderly history),
`balance_foldAtom` (what an atom adds to a balance) and `folded_unconsumed_eq` (holdings and
reconcilers know the same coins).
-/

namespace ParticleLedger

open Coin (worthAll)
open Std (ExtTreeMap)

/-- The coins of an address that an atom spends, in order. -/
def Atom.spends (address : Address) (e : Atom) : List Coin :=
  e.consumers.filter (·.ownedBy address)

/-- The coins of an address that an atom creates, in order. -/
def Atom.makes (address : Address) (e : Atom) : List Coin :=
  e.consumables.filter (·.ownedBy address)

/-- All tokens of an address. -/
def Scope.all (address : Address) : Scope :=
  ⟨address, .any⟩

@[simp] theorem Scope.relevant_all (address : Address) :
    (Scope.all address).relevant = fun c => c.ownedBy address := by
  funext c
  simp [relevant, all, TokenFilter.accepts]

theorem Scope.consumed_all (address : Address) (e : Atom) :
    (Scope.all address).consumed e = (e.spends address).map Coin.id := by
  rw [consumed, relevant_all, Atom.spends]

theorem Scope.created_all (address : Address) (e : Atom) :
    (Scope.all address).created e = (e.makes address).map fun c => (c.id, c) := by
  rw [created, relevant_all, Atom.makes]

namespace Holdings

variable {address : Address} {t : TokenRef} {h : Holdings} {history : List Atom} {e : Atom}

/-- What the unspent coins of a token are worth together. -/
def spendable (h : Holdings) (t : TokenRef) : Int :=
  ((h.unconsumedFor t).map fun c => (c.quantity.toNat : Int)).sum

theorem spendable_eq_total : h.spendable t = total t h.unconsumed := by
  unfold spendable unconsumedFor total
  rw [Coin.worthAll_eq_sum_filter]

theorem spendable_nonneg : 0 ≤ h.spendable t := by
  rw [spendable_eq_total]
  exact total_nonneg

/-! ## Particles -/

/-- The coins of the address that some particles spend. -/
def spent (address : Address) (particles : List Particle) : List Coin :=
  (particles.filterMap Particle.consumed?).filter (·.ownedBy address)

/-- The coins of the address that some particles create. -/
def made (address : Address) (particles : List Particle) : List Coin :=
  (particles.filterMap Particle.created?).filter (·.ownedBy address)

section Cons

variable (c : Coin) (rest : List Particle)

@[simp] theorem spent_consumer_cons : spent address (.consumer c :: rest) =
    if c.ownedBy address then c :: spent address rest else spent address rest := by
  simp [spent, Particle.consumed?, List.filter_cons]

@[simp] theorem spent_consumable_cons :
    spent address (.consumable c :: rest) = spent address rest := rfl

@[simp] theorem made_consumable_cons : made address (.consumable c :: rest) =
    if c.ownedBy address then c :: made address rest else made address rest := by
  simp [made, Particle.created?, List.filter_cons]

@[simp] theorem made_consumer_cons :
    made address (.consumer c :: rest) = made address rest := rfl

end Cons

/-- The holdings after some particles. -/
def afterAll (h : Holdings) (address : Address) (particles : List Particle) : Holdings :=
  particles.foldl (fun h p => h.after address p) h

@[simp] theorem afterAll_cons (p : Particle) (rest : List Particle) :
    h.afterAll address (p :: rest) = (h.after address p).afterAll address rest := rfl

theorem balance_credit (s : TokenRef) (amount : Int) :
    (h.credit s amount).balance t = h.balance t + if s = t then amount else 0 := by
  rw [credit, balance, ExtTreeMap.getD_insert]
  by_cases hs : s = t
  · simp [hs]
  · simp [hs, balance]

theorem balance_after_consumable (c : Coin) :
    (h.after address (.consumable c)).balance t =
      h.balance t + if c.ownedBy address then c.worth t else 0 := by
  rw [after]
  split
  · exact balance_credit c.token _
  · simp

theorem balance_after_consumer (c : Coin) :
    (h.after address (.consumer c)).balance t =
      h.balance t - if c.ownedBy address then c.worth t else 0 := by
  rw [after]
  split
  · refine (balance_credit c.token _).trans ?_
    rw [Coin.worth]
    split <;> omega
  · simp

/-- Particles add what they create and take off what they spend, as often as they list it. -/
theorem balance_afterAll (particles : List Particle) : (h.afterAll address particles).balance t =
      h.balance t + worthAll t (made address particles) - worthAll t (spent address particles) := by
  induction particles generalizing h with
  | nil => simp [afterAll, made, spent]
  | cons p rest ih =>
    rw [afterAll_cons, ih]
    cases p with
    | consumable c =>
      rw [balance_after_consumable, made_consumable_cons, spent_consumable_cons]
      split
      · rw [Coin.worthAll_cons]
        omega
      · simp
    | consumer c =>
      rw [balance_after_consumer, made_consumer_cons, spent_consumer_cons]
      split
      · rw [Coin.worthAll_cons]
        omega
      · simp
    | tokenDefinition d => rfl
    | uniqueId u => rfl

/-- A coin put in under a name that is not among those taken out may as well be put in after
them. -/
theorem foldl_erase_insert {k : ParticleId} {c : Coin} {ids : List ParticleId} (hk : k ∉ ids)
    (m : ExtTreeMap ParticleId Coin) :
    ids.foldl (fun m id => m.erase id) (m.insert k c) =
      (ids.foldl (fun m id => m.erase id) m).insert k c := by
  refine ExtTreeMap.ext_getElem? fun j => ?_
  rw [LedgerView.getElem?_foldl_erase, ExtTreeMap.getElem?_insert, ExtTreeMap.getElem?_insert,
    LedgerView.getElem?_foldl_erase]
  by_cases hj : k = j
  · subst hj
    simp [hk]
  · simp [hj]

/-- Particles that create nothing of what they spend leave what taking out all that they spend
and then putting in all that they create leaves. -/
theorem unconsumed_afterAll {particles : List Particle}
    (hdisjoint : ∀ c ∈ made address particles, c.id ∉ (spent address particles).map Coin.id) :
    (h.afterAll address particles).unconsumed =
      ((made address particles).map fun c => (c.id, c)).foldl (fun m c => m.insert c.1 c.2)
        (((spent address particles).map Coin.id).foldl (fun m id => m.erase id) h.unconsumed) := by
  induction particles generalizing h with
  | nil => rfl
  | cons p rest ih =>
    rw [afterAll_cons]
    cases p with
    | consumable c =>
      rw [made_consumable_cons, spent_consumable_cons] at hdisjoint ⊢
      split at hdisjoint
      · next hc =>
        obtain ⟨hfirst, hrest⟩ := List.forall_mem_cons.1 hdisjoint
        have hstep : (h.after address (.consumable c)).unconsumed = h.unconsumed.insert c.id c := by
          simp [after, hc]
        rw [ih hrest, hstep, if_pos hc, foldl_erase_insert hfirst]
        rfl
      · next hc =>
        rw [ih hdisjoint, if_neg hc]
        simp [after, hc]
    | consumer c =>
      rw [made_consumer_cons, spent_consumer_cons] at hdisjoint ⊢
      split at hdisjoint
      · next hc =>
        have hrest : ∀ d ∈ made address rest, d.id ∉ (spent address rest).map Coin.id :=
          fun d hd hmem => hdisjoint d hd (List.mem_cons_of_mem _ hmem)
        have hstep : (h.after address (.consumer c)).unconsumed = h.unconsumed.erase c.id := by
          simp [after, hc]
        rw [ih hrest, hstep, if_pos hc]
        rfl
      · next hc =>
        rw [ih hdisjoint, if_neg hc]
        simp [after, hc]
    | tokenDefinition d => exact ih hdisjoint
    | uniqueId u => exact ih hdisjoint

/-! ## Atoms and histories -/

theorem foldAtom_eq : balanceReducer.foldAtom address h e = h.afterAll address e.particles := by
  simp [Reducer.foldAtom, Atom.events, balanceReducer, List.foldl_map, afterAll]

/-- An atom adds to a balance what it creates and takes off what it spends, as often as it lists
it. -/
theorem balance_foldAtom : (balanceReducer.foldAtom address h e).balance t =
    h.balance t + worthAll t (e.makes address) - worthAll t (e.spends address) := by
  rw [foldAtom_eq, balance_afterAll]
  rfl

/-- An atom that fits does to the unspent coins what replaying it does. -/
theorem unconsumed_foldAtom (hfits : (Scope.all address).Fits h.unconsumed e) :
    (balanceReducer.foldAtom address h e).unconsumed =
      LedgerView.replay (Scope.all address) h.unconsumed e := by
  have hdisjoint : ∀ c ∈ e.makes address, c.id ∉ (e.spends address).map Coin.id := by
    intro c hc hmem
    rw [← Scope.consumed_all] at hmem
    refine hfits.not_creates hmem (Scope.mem_creates.2 ⟨c, ?_⟩)
    rw [Scope.created_all]
    exact List.mem_map_of_mem hc
  rw [foldAtom_eq, unconsumed_afterAll hdisjoint, LedgerView.replay, Scope.created_all,
    Scope.consumed_all]
  rfl

theorem foldAtoms_concat : balanceReducer.foldAtoms address h (history ++ [e]) =
    balanceReducer.foldAtom address (balanceReducer.foldAtoms address h history) e := by
  simp [Reducer.foldAtoms]

/-- After an orderly history the unspent coins are those that replaying it leaves. -/
theorem unconsumed_foldAtoms (horderly : (Scope.all address).Orderly history) :
    (balanceReducer.foldAtoms address .none history).unconsumed =
      LedgerView.replayAll (Scope.all address) history := by
  induction history using List.reverseRecOn with
  | nil => rfl
  | append_singleton history e ih =>
    obtain ⟨hbefore, hfits⟩ := Scope.orderly_concat_iff.1 horderly
    rw [← ih hbefore] at hfits
    rw [foldAtoms_concat, unconsumed_foldAtom hfits, ih hbefore, LedgerView.replayAll_concat]

end Holdings

namespace Reconciler

/-- Whatever is offered to a reconciler of all tokens, folding the particles of what it passes on,
each atom in the order in which it lists them, gives the very coins that the reconciler holds for
unspent, under the same names. After the first `n` atoms passed on it gives those that replaying
these leaves. -/
theorem folded_unconsumed_eq (address : Address) (offered : List Atom) :
    let r := (fresh (.all address)).acceptAll offered
    let emitted := (fresh (.all address)).emissions offered
    let folded := balanceReducer.foldAtoms address .none
    (folded emitted).unconsumed = r.view.unconsumed ∧
      ∀ n, (folded (emitted.take n)).unconsumed =
        LedgerView.replayAll (.all address) (emitted.take n) := by
  intro r emitted folded
  have h : r.view.Records (.all address) emitted := records_acceptAll (.all address) offered
  constructor
  · rw [h.unconsumed_eq]
    exact Holdings.unconsumed_foldAtoms h.orderly
  · intro n
    exact Holdings.unconsumed_foldAtoms (h.orderly.of_prefix (List.take_prefix n emitted))

end Reconciler

end ParticleLedger
