import Mathlib.Algebra.Order.Group.Nat
import ParticleLedger.Proofs.Balance.Holdings
import ParticleLedger.Proofs.Transfer.Conservation

/-!
# The fold of balances

Whatever particles are folded, valid or not, the balances of an address come out as the sums of what
it was given less what it spent, and these are what the deltas of its own part of the atoms add up
to. Sums do not look at the order, so the balances depend on the particles alone. The unspent coins
do depend on the order: of every coin the last particle decides. Balances are signed words of 128
bits in a running ledger, and these suffice for any number of particles that can be counted.

Main statements: `afterAll_balances` (the balances do not depend on the order),
`fits_balance_afterAll` (nothing overflows), `getElem?_unconsumed_afterAll` (the last particle
decides) and `balance_fold_exact`.
-/

namespace ParticleLedger

open Coin (worth worthAll)
open Std (ExtTreeMap)

/-! ## Sums that fit -/

/-- The number is a signed word of 128 bits. -/
def Fits128 (x : Int) : Prop :=
  -2 ^ 127 ≤ x ∧ x < 2 ^ 127

namespace Coin

variable {t : TokenRef} {coins coins' : List Coin}

theorem worth_lt (c : Coin) : c.worth t < 2 ^ 64 := by
  unfold worth
  split
  · exact_mod_cast c.quantity.toNat_lt
  · decide

theorem worthAll_le (coins : List Coin) : worthAll t coins ≤ coins.length * (2 ^ 64 - 1) := by
  induction coins with
  | nil => simp
  | cons c rest ih =>
    have hc := c.worth_lt (t := t)
    rw [worthAll_cons, List.length_cons, Nat.cast_add_one]
    omega

theorem worthAll_perm (h : coins.Perm coins') : worthAll t coins = worthAll t coins' :=
  (h.map (worth t)).sum_eq

end Coin

namespace Particle

variable {t : TokenRef}

theorem length_created_add_consumed (particles : List Particle) :
    (particles.filterMap created?).length + (particles.filterMap consumed?).length ≤
      particles.length := by
  induction particles with
  | nil => simp
  | cons p rest ih =>
    cases p <;> simp only [List.filterMap_cons, created?, consumed?, List.length_cons] <;> omega

/-- What fewer than `2 ^ 63` particles create less what they spend never overflows. -/
theorem fits_net {particles : List Particle} (h : particles.length < 2 ^ 63) :
    Fits128 (net t particles) := by
  have hcreated := Coin.worthAll_le (t := t) (particles.filterMap created?)
  have hconsumed := Coin.worthAll_le (t := t) (particles.filterMap consumed?)
  have hpos := Coin.worthAll_nonneg (t := t) (particles.filterMap created?)
  have hpos' := Coin.worthAll_nonneg (t := t) (particles.filterMap consumed?)
  have hlength := length_created_add_consumed particles
  unfold Fits128 net
  omega

/-- The particle creates or spends a coin of the address. -/
def ownValue (address : Address) (p : Particle) : Bool :=
  p.coin?.any (·.ownedBy address)

/-- Taking the coins of the address from what particles mention is to mention its own coins. -/
theorem filter_ownedBy_filterMap {mentioned? : Particle → Option Coin}
    (h : ∀ p c, mentioned? p = some c → p.coin? = some c) (address : Address)
    (particles : List Particle) : (particles.filterMap mentioned?).filter (·.ownedBy address) =
      (particles.filter (ownValue address)).filterMap mentioned? := by
  rw [List.filter_filterMap, List.filterMap_filter]
  congr 1
  funext p
  cases hp : mentioned? p with
  | none => simp
  | some c => simp [ownValue, h p c hp, Option.filter]

theorem eq_consumable_of_created? {p : Particle} {c : Coin} (h : p.created? = some c) :
    p = .consumable c := by
  cases p <;> simp_all [created?]

theorem coin?_of_created? (p : Particle) (c : Coin) (h : p.created? = some c) :
    p.coin? = some c := by
  rw [eq_consumable_of_created? h]
  rfl

theorem coin?_of_consumed? (p : Particle) (c : Coin) (h : p.consumed? = some c) :
    p.coin? = some c := by
  cases p <;> simp_all [consumed?, coin?]

end Particle

/-- The part of an atom that moves value of the address. -/
def Atom.own (address : Address) (e : Atom) : Atom :=
  { e with particles := e.particles.filter (Particle.ownValue address) }

namespace Holdings

variable {address : Address} {t : TokenRef} {h : Holdings} {k : ParticleId} {c : Coin}
  {particles particles' : List Particle}

@[simp] theorem balance_none : none.balance t = 0 := by
  simp [none, balance]

theorem afterAll_append : h.afterAll address (particles ++ particles') =
    (h.afterAll address particles).afterAll address particles' :=
  List.foldl_append

theorem afterAll_concat (p : Particle) :
    h.afterAll address (particles ++ [p]) = (h.afterAll address particles).after address p :=
  afterAll_append

/-- How the particles are bundled makes no difference. -/
theorem foldAtoms_eq (atoms : List Atom) : balanceReducer.foldAtoms address h atoms =
    h.afterAll address (atoms.flatMap (·.particles)) := by
  induction atoms generalizing h with
  | nil => rfl
  | cons e rest ih =>
    rw [List.flatMap_cons, afterAll_append, ← foldAtom_eq]
    exact ih

/-! ## Balances -/

/-- Particles add to a balance what those of the address create less what these spend. -/
theorem balance_afterAll_eq_net : (h.afterAll address particles).balance t =
    h.balance t + Particle.net t (particles.filter (Particle.ownValue address)) := by
  rw [balance_afterAll, made, spent,
    Particle.filter_ownedBy_filterMap Particle.coin?_of_created?,
    Particle.filter_ownedBy_filterMap Particle.coin?_of_consumed?, Particle.net]
  omega

/-- A particle makes an entry for its token, if its coin is the address's, and no other one. -/
theorem mem_balances_after (p : Particle) : t ∈ (h.after address p).balances ↔
    t ∈ h.balances ∨ ∃ c, p.coin? = some c ∧ c.ownedBy address ∧ c.token = t := by
  cases p with
  | consumable c =>
    by_cases hc : c.ownedBy address <;> simp [after, credit, Particle.coin?, hc, or_comm]
  | consumer c =>
    by_cases hc : c.ownedBy address <;> simp [after, credit, Particle.coin?, hc, or_comm]
  | tokenDefinition d => simp [after, Particle.coin?]
  | uniqueId u => simp [after, Particle.coin?]

/-- The balances have an entry for every token of which the address was given or spent a coin. -/
theorem mem_balances_afterAll : t ∈ (h.afterAll address particles).balances ↔
    t ∈ h.balances ∨
      ∃ p ∈ particles, ∃ c, p.coin? = some c ∧ c.ownedBy address ∧ c.token = t := by
  induction particles using List.reverseRecOn with
  | nil => simp [afterAll]
  | append_singleton rest p ih =>
    rw [afterAll_concat, mem_balances_after, ih, or_assoc]
    simp only [List.mem_append, List.mem_singleton, or_and_right, exists_or, exists_eq_left]

/-- The same particles in another order leave the same balances. -/
theorem afterAll_balances (hperm : particles.Perm particles') :
    (h.afterAll address particles).balances = (h.afterAll address particles').balances := by
  have hmem : ∀ t, t ∈ (h.afterAll address particles).balances ↔
      t ∈ (h.afterAll address particles').balances := by
    intro t
    simp only [mem_balances_afterAll, hperm.mem_iff]
  have hbalance : ∀ t, (h.afterAll address particles).balance t =
      (h.afterAll address particles').balance t := by
    intro t
    rw [balance_afterAll_eq_net, balance_afterAll_eq_net, Particle.net, Particle.net,
      Coin.worthAll_perm ((hperm.filter _).filterMap _),
      Coin.worthAll_perm ((hperm.filter _).filterMap _)]
  -- A balance reads the same under a token that has no entry and under one with the entry zero, so
  -- the entries are compared as well.
  refine ExtTreeMap.ext_getElem? fun t => ?_
  by_cases ht : t ∈ (h.afterAll address particles).balances
  · have ht' := (hmem t).1 ht
    have hsame := hbalance t
    rw [balance, balance, ExtTreeMap.getD_eq_getD_getElem?, ExtTreeMap.getD_eq_getD_getElem?,
      ExtTreeMap.getElem?_eq_some_getElem ht, ExtTreeMap.getElem?_eq_some_getElem ht'] at hsame
    rw [ExtTreeMap.getElem?_eq_some_getElem ht, ExtTreeMap.getElem?_eq_some_getElem ht']
    exact congrArg some hsame
  · rw [ExtTreeMap.getElem?_eq_none ht, ExtTreeMap.getElem?_eq_none (mt (hmem t).2 ht)]

/-- Fewer than `2 ^ 63` particles let no balance overflow. -/
theorem fits_balance_afterAll (hlength : particles.length < 2 ^ 63) :
    Fits128 ((Holdings.none.afterAll address particles).balance t) := by
  have hown := List.length_filter_le (Particle.ownValue address) particles
  rw [balance_afterAll_eq_net]
  simpa using Particle.fits_net (hown.trans_lt hlength)

/-! ## Unspent coins -/

/-- A particle decides about its own coin, if it is the address's, and about no other one. -/
theorem getElem?_unconsumed_after (p : Particle) : (h.after address p).unconsumed[k]? =
    if p.ownValue address ∧ p.id = k then p.created? else h.unconsumed[k]? := by
  cases p with
  | consumable c =>
    have hid : Particle.id (.consumable c) = c.id := rfl
    by_cases hc : c.ownedBy address
    · simp [after, credit, Particle.ownValue, Particle.coin?, Particle.created?, hid, hc,
        ExtTreeMap.getElem?_insert]
    · simp [after, Particle.ownValue, Particle.coin?, hc]
  | consumer c =>
    have hid : Particle.id (.consumer c) = c.id := rfl
    by_cases hc : c.ownedBy address
    · simp [after, credit, Particle.ownValue, Particle.coin?, Particle.created?, hid, hc,
        ExtTreeMap.getElem?_erase]
    · simp [after, Particle.ownValue, Particle.coin?, hc]
  | tokenDefinition d => simp [after, Particle.ownValue, Particle.coin?]
  | uniqueId u => simp [after, Particle.ownValue, Particle.coin?]

/-- Of every coin the last particle of the address decides whether it is unspent. -/
theorem getElem?_unconsumed_afterAll : (none.afterAll address particles).unconsumed[k]? =
    (particles.filter fun p => p.ownValue address ∧ p.id = k).getLast?.bind
      Particle.created? := by
  induction particles using List.reverseRecOn with
  | nil => simp [afterAll, none]
  | append_singleton rest p ih =>
    rw [afterAll_concat, getElem?_unconsumed_after, ih, List.filter_append]
    by_cases hp : p.ownValue address ∧ p.id = k
    · simp [hp]
    · simp [hp]

end Holdings

/-! ## Whole histories -/

/-- The delta of a token in the part of an atom that moves value of the address. -/
theorem Atom.getD_tokenDeltas_own {address : Address} {t : TokenRef} (e : Atom) :
    (e.own address).tokenDeltas.getD t 0 =
      Particle.net t (e.particles.filter (Particle.ownValue address)) :=
  Atom.getD_tokenDeltas

namespace Holdings

variable {address : Address} {t : TokenRef} {h : Holdings}

/-- A balance grows by the deltas of the address's own part of each atom. -/
theorem balance_foldAtoms (atoms : List Atom) :
    (balanceReducer.foldAtoms address h atoms).balance t =
      h.balance t + (atoms.map fun e => (e.own address).tokenDeltas.getD t 0).sum := by
  induction atoms generalizing h with
  | nil => simp [Reducer.foldAtoms]
  | cons e rest ih =>
    have hfirst : (balanceReducer.foldAtom address h e).balance t =
        h.balance t + (e.own address).tokenDeltas.getD t 0 := by
      rw [foldAtom_eq, Atom.getD_tokenDeltas_own]
      exact balance_afterAll_eq_net
    rw [List.map_cons, List.sum_cons, ← add_assoc, ← hfirst]
    exact ih

/-- An atom whose value is all the address's, and that creates as much as it spends, leaves the
balances alone. -/
theorem balance_foldAtom_of_balanced {e : Atom}
    (hown : ∀ p ∈ e.particles, ∀ c, p.coin? = some c → c.ownedBy address)
    (hbalanced : e.isBalanced) : (balanceReducer.foldAtom address h e).balance t = h.balance t := by
  have hmakes : e.makes address = e.consumables := by
    refine List.filter_eq_self.2 fun c hc => ?_
    obtain ⟨p, hp, hcreated⟩ := List.mem_filterMap.1 hc
    exact hown p hp c (Particle.coin?_of_created? p c hcreated)
  have hspends : e.spends address = e.consumers := by
    refine List.filter_eq_self.2 fun c hc => ?_
    obtain ⟨p, hp, hconsumed⟩ := List.mem_filterMap.1 hc
    exact hown p hp c (Particle.coin?_of_consumed? p c hconsumed)
  rw [balance_foldAtom, hmakes, hspends, Atom.isBalanced_iff.1 hbalanced t]
  omega

/-- Folding fewer than `2 ^ 63` particles of any kind, bundled into atoms in any way, keeps every
balance within 128 bits at every moment, as it does every delta. Each balance comes out as what the
address was given of the token less what it spent, which is what the deltas of its own part of the
atoms add up to. Other atoms with the same particles, whatever their order, leave the same balances,
and an atom whose value is all the address's leaves them alone if it is balanced. A coin is unspent
exactly if the last of the particles that concern it and the address creates it. -/
theorem balance_fold_exact (address : Address) (atoms : List Atom)
    (hlength : (atoms.flatMap (·.particles)).length < 2 ^ 63) :
    let particles := atoms.flatMap (·.particles)
    let fold := balanceReducer.foldAtoms address balanceReducer.initial
    (fold atoms = none.afterAll address particles ∧
      ∀ first, first <+: particles → ∀ t, Fits128 ((none.afterAll address first).balance t)) ∧
    (∀ e ∈ atoms, ∀ first, first <+: (e.own address).particles → ∀ t,
      Fits128 ((Atom.tokenDeltas { e with particles := first }).getD t 0)) ∧
    (∀ t, (fold atoms).balance t =
      worthAll t (made address particles) - worthAll t (spent address particles)) ∧
    (∀ t, (fold atoms).balance t =
      (atoms.map fun e => (e.own address).tokenDeltas.getD t 0).sum) ∧
    (∀ others : List Atom, (others.flatMap (·.particles)).Perm particles →
      (fold others).balances = (fold atoms).balances) ∧
    (∀ e : Atom, (∀ p ∈ e.particles, ∀ c, p.coin? = some c → c.ownedBy address) → e.isBalanced →
      ∀ t, (fold (atoms ++ [e])).balance t = (fold atoms).balance t) ∧
    (∀ k c, (fold atoms).unconsumed[k]? = some c ↔
      (particles.filter fun p => p.ownValue address ∧ p.id = k).getLast? =
        some (.consumable c)) := by
  intro particles fold
  have hfold : ∀ atoms, fold atoms = none.afterAll address (atoms.flatMap (·.particles)) :=
    fun atoms => foldAtoms_eq atoms
  refine ⟨⟨hfold atoms, ?moments⟩, ?deltas, ?sums, ?agree, ?perm, ?balanced, ?unspent⟩
  case moments =>
    intro first hfirst t
    exact fits_balance_afterAll (hfirst.length_le.trans_lt hlength)
  case deltas =>
    intro e he first hfirst t
    rw [Atom.getD_tokenDeltas]
    refine Particle.fits_net (hfirst.length_le.trans_lt ?_)
    have hlisted : e.particles.length ≤ particles.length := by
      rw [List.length_flatMap]
      exact List.le_sum_of_mem (List.mem_map_of_mem he)
    exact ((List.length_filter_le _ _).trans hlisted).trans_lt hlength
  case sums =>
    intro t
    rw [hfold, balance_afterAll, balance_none, zero_add]
  case agree =>
    intro t
    show (balanceReducer.foldAtoms address none atoms).balance t = _
    rw [balance_foldAtoms, balance_none, zero_add]
  case perm =>
    intro others hperm
    rw [hfold, hfold]
    exact afterAll_balances hperm
  case balanced =>
    intro e hown hbalanced t
    show (balanceReducer.foldAtoms address none (atoms ++ [e])).balance t = _
    rw [foldAtoms_concat]
    exact balance_foldAtom_of_balanced hown hbalanced
  case unspent =>
    intro k c
    rw [hfold, getElem?_unconsumed_afterAll, Option.bind_eq_some_iff]
    constructor
    · rintro ⟨p, hlast, hcreated⟩
      obtain rfl := Particle.eq_consumable_of_created? hcreated
      exact hlast
    · intro hlast
      exact ⟨_, hlast, rfl⟩

/-- A coin that is spent before it is created is worth nothing and stays unspent. -/
theorem balance_fold_exact_backwards :
    let folded := balanceReducer.foldAtoms Sample.address .none [Sample.spend, Sample.issue]
    folded.balance Sample.coin.token = 0 ∧
      folded.unconsumed[Sample.coin.id]? = some Sample.coin := by
  obtain ⟨-, -, hbalance, -, -, -, hunspent⟩ :=
    balance_fold_exact Sample.address [Sample.spend, Sample.issue] (by decide)
  have hparticles : [Sample.spend, Sample.issue].flatMap (·.particles) =
      [.consumer Sample.coin, .consumable Sample.coin] := rfl
  rw [hparticles] at hbalance hunspent
  constructor
  · refine (hbalance _).trans ?_
    rw [made_consumer_cons, made_consumable_cons, spent_consumer_cons, spent_consumable_cons,
      if_pos Sample.ownedBy_coin, if_pos Sample.ownedBy_coin]
    exact sub_self _
  · refine (hunspent _ _).2 ?_
    have hids : Particle.id (.consumable Sample.coin) = Sample.coin.id := rfl
    simp [Particle.ownValue, Particle.coin?, Sample.ownedBy_coin, hids]

end Holdings

end ParticleLedger
