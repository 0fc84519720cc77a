import ParticleLedger.Proofs.Balance.Value
import ParticleLedger.Proofs.Atom.Plain
import ParticleLedger.Proofs.Transfer.Selection
import ParticleLedger.Transfer.Builder

/-!
# What a built transfer conserves

The deltas of an atom are what it creates of each token less what it spends, and the atom is balanced
if they all vanish. Building looks at one of them, that of the token to be transferred: the result
conserves this token, whatever the policy chose and whatever was added. Of another token it conserves
as much as the policy and the extra particles do.

Main statements: `Atom.getD_tokenDeltas`, `Atom.isBalanced_iff`, `TransferBuilder.build_eq_ok_iff` and
`TransferBuilder.built_conserves`.
-/

namespace ParticleLedger

open Coin (worth worthAll)
open Std (ExtTreeMap)

/-! ## What particles add up to -/

namespace Particle

variable {t : TokenRef}

/-- What particles create of a token less what they spend of it. -/
def net (t : TokenRef) (particles : List Particle) : Int :=
  worthAll t (particles.filterMap created?) - worthAll t (particles.filterMap consumed?)

theorem net_append (first later : List Particle) :
    net t (first ++ later) = net t first + net t later := by
  simp only [net, worthAll, List.filterMap_append, List.map_append, List.sum_append]
  omega

theorem net_consumers (coins : List Coin) : net t (coins.map consumer) = -worthAll t coins := by
  simp [net, List.filterMap_map, Function.comp_def, created?, consumed?]

theorem net_consumables (coins : List Coin) : net t (coins.map consumable) = worthAll t coins := by
  simp [net, List.filterMap_map, Function.comp_def, created?, consumed?]

/-- The net amount is the sum of the deltas that are of the token. -/
theorem net_eq_sum_deltas (particles : List Particle) : net t particles =
    ((particles.filterMap delta?).map fun d => if d.1 = t then d.2 else 0).sum := by
  induction particles with
  | nil => rfl
  | cons p rest ih =>
    have hstep : net t (p :: rest) = net t [p] + net t rest := net_append [p] rest
    rw [hstep, ih]
    cases p with
    | consumable c =>
      simp [net, List.filterMap_cons, created?, consumed?, delta?, worth]
    | consumer c =>
      by_cases h : c.token = t
      · simp [net, List.filterMap_cons, created?, consumed?, delta?, worth, h]
      · simp [net, List.filterMap_cons, created?, consumed?, delta?, worth, h]
    | tokenDefinition d => simp [net, List.filterMap_cons, created?, consumed?, delta?]
    | uniqueId claim => simp [net, List.filterMap_cons, created?, consumed?, delta?]

end Particle

namespace Atom

variable {t : TokenRef} {a : Atom}

/-- Amounts entered into a map one after another add up under each token. -/
theorem getD_foldl_deltas (ds : List (TokenRef × Int)) (m : ExtTreeMap TokenRef Int) :
    (ds.foldl (fun deltas d => deltas.insert d.1 (deltas.getD d.1 0 + d.2)) m).getD t 0 =
      m.getD t 0 + (ds.map fun d => if d.1 = t then d.2 else 0).sum := by
  induction ds generalizing m with
  | nil => simp
  | cons d rest ih =>
    rw [List.foldl_cons, ih, List.map_cons, List.sum_cons]
    by_cases h : d.1 = t
    · subst h
      simp only [ExtTreeMap.getD_insert_self, if_true]
      omega
    · have hother : (m.insert d.1 (m.getD d.1 0 + d.2)).getD t 0 = m.getD t 0 := by
        rw [ExtTreeMap.getD_insert, if_neg (by simpa using h)]
      rw [hother, if_neg h]
      omega

/-- The delta of a token is what the atom creates of it less what it spends of it. -/
theorem getD_tokenDeltas :
    a.tokenDeltas.getD t 0 = worthAll t a.consumables - worthAll t a.consumers := by
  have hsum := getD_foldl_deltas (t := t) (a.particles.filterMap Particle.delta?) ∅
  rw [← Particle.net_eq_sum_deltas] at hsum
  rw [tokenDeltas, hsum]
  simp [Particle.net, consumables, consumers]

/-- An atom is balanced exactly if it creates as much of every token as it spends. -/
theorem isBalanced_iff :
    a.isBalanced ↔ ∀ t, worthAll t a.consumables = worthAll t a.consumers := by
  have hdelta : ∀ t, worthAll t a.consumables = worthAll t a.consumers ↔
      a.tokenDeltas.getD t 0 = 0 := by
    intro t
    rw [getD_tokenDeltas]
    omega
  simp only [isBalanced, hdelta, List.all_eq_true, decide_eq_true_eq]
  constructor
  · intro h t
    cases hget : a.tokenDeltas[t]? with
    | none => rw [ExtTreeMap.getD_eq_getD_getElem?, hget, Option.getD_none]
    | some amount =>
      rw [ExtTreeMap.getD_eq_getD_getElem?, hget, Option.getD_some]
      exact h (t, amount) (ExtTreeMap.mem_toList_iff_getElem?_eq_some.2 hget)
  · rintro h ⟨t, amount⟩ hmem
    have hget := ExtTreeMap.mem_toList_iff_getElem?_eq_some.1 hmem
    have hzero := h t
    rwa [ExtTreeMap.getD_eq_getD_getElem?, hget, Option.getD_some] at hzero

end Atom

/-! ## Building -/

variable {b : TransferBuilder} {nonces : Nonces} {now : Int} {coins : List Coin} {u : UnsignedAtom}
  {t : TokenRef}

namespace TransferBuilder

/-- Nothing is built if nothing is chosen. -/
theorem build_of_refused {cause : LedgerError} (h : b.select coins = .error cause) :
    b.build nonces now coins = .error cause := by
  rw [build, h]
  rfl

/-- What is chosen is put together, unless more or less of the token is created than spent. -/
theorem build_of_chosen {s : Selection} (h : b.select coins = .ok s) :
    b.build nonces now coins =
      if Particle.net b.token (b.particles nonces s) = 0 then .ok ⟨b.assemble nonces now s, s⟩
      else .error (.invalidTransfer (.unbalanced b.token
        (Particle.net b.token (b.particles nonces s)))) := by
  have hdelta : (b.assemble nonces now s).tokenDeltas.getD b.token 0 =
      Particle.net b.token (b.particles nonces s) := Atom.getD_tokenDeltas
  simp only [build, h, bind, Except.bind, hdelta]
  by_cases hzero : Particle.net b.token (b.particles nonces s) = 0
  · rw [if_neg (not_not.2 hzero), if_pos hzero]
    rfl
  · rw [if_pos hzero, if_neg hzero]
    rfl

/-- What is built is put together from what the policy chose, and the token to be transferred is
conserved; otherwise nothing is built. -/
theorem build_eq_ok_iff : b.build nonces now coins = .ok u ↔
    ∃ s, b.select coins = .ok s ∧ u = ⟨b.assemble nonces now s, s⟩ ∧
      worthAll b.token u.atom.consumables = worthAll b.token u.atom.consumers := by
  cases hselect : b.select coins with
  | error cause => simp [build_of_refused hselect]
  | ok s =>
    rw [build_of_chosen hselect]
    simp only [Except.ok.injEq, exists_eq_left']
    have hnet : Particle.net b.token (b.particles nonces s) = 0 ↔
        worthAll b.token (b.assemble nonces now s).consumables =
          worthAll b.token (b.assemble nonces now s).consumers := sub_eq_zero
    constructor
    · intro h
      split at h
      · next hzero =>
        obtain rfl := Except.ok.inj h
        exact ⟨rfl, hnet.1 hzero⟩
      · contradiction
    · rintro ⟨rfl, hown⟩
      rw [if_pos (hnet.2 hown)]

/-- The coins to create are all of the token to be transferred. -/
theorem worthAll_outputs_of_ne (s : Selection) (ht : t ≠ b.token) :
    worthAll t (b.outputs nonces s) = 0 := by
  have hworthless : ∀ c ∈ b.outputs nonces s, worth t c = 0 := by
    intro c hc
    obtain ⟨i, hi, rfl⟩ := List.mem_mapIdx.1 hc
    exact if_neg (Ne.symm ht)
  exact List.sum_eq_zero (by simpa using hworthless)

/-- Of a token that is not to be transferred, the atom creates and spends what the extra particles
do, and spends what the policy chose. -/
theorem net_assemble_of_ne (nonces : Nonces) (now : Int) (s : Selection) (ht : t ≠ b.token) :
    worthAll t (b.assemble nonces now s).consumables -
        worthAll t (b.assemble nonces now s).consumers =
      Particle.net t b.extraParticles - worthAll t s.spent := by
  show Particle.net t (b.particles nonces s) = _
  rw [particles, Particle.net_append, Particle.net_append, Particle.net_consumers,
    Particle.net_consumables, worthAll_outputs_of_ne s ht]
  omega

/-- A policy that spends only the token to be transferred spends nothing of another one. -/
theorem worthAll_spent_of_greedy {s : Selection} (hgreedy : b.selector = greedyFirstFit)
    (hs : b.select coins = .ok s) (ht : t ≠ b.token) : worthAll t s.spent = 0 := by
  have hworthless : ∀ c ∈ s.spent, worth t c = 0 := by
    intro c hc
    rw [select, hgreedy, greedyFirstFit_eq_ok_iff] at hs
    have hoffered : c ∈ coinsOf b.token coins := hs.2.1.isPrefix.subset hc
    have htoken : c.token = b.token := by simpa [coinsOf] using (List.mem_filter.1 hoffered).2
    exact if_neg (by rw [htoken]; exact Ne.symm ht)
  exact List.sum_eq_zero (by simpa using hworthless)

end TransferBuilder

namespace Sample

/-- A transfer of the coin to its owner, with some extra particles. -/
def pay (extra : List Particle) : TransferBuilder :=
  { TransferBuilder.plain coin.token coin.owners 10 with extraParticles := extra }

/-- The coin is spent whole, and there is no change. -/
def payment : Selection := ⟨[coin], [(coin.owners, 10)]⟩

/-- What the transfer looks like while it waits for signatures. -/
def paid (extra : List Particle) : UnsignedAtom :=
  ⟨(pay extra).assemble (.countingFrom 0) 1000 payment, payment⟩

/-- Particles that leave the token alone do not stand in the way of the transfer. -/
theorem build_pay {extra : List Particle} (h : Particle.net coin.token extra = 0) :
    (pay extra).build (.countingFrom 0) 1000 [coin] = .ok (paid extra) := by
  have hselect : (pay extra).select [coin] = .ok payment := by
    have hoffered : coinsOf coin.token [coin] = [coin] := by simp [coinsOf]
    show greedyFirstFit (coinsOf coin.token [coin]) 10 coin.owners = .ok payment
    rw [hoffered]
    rfl
  refine TransferBuilder.build_eq_ok_iff.2 ⟨payment, hselect, rfl, ?_⟩
  have hspent : worthAll coin.token [coin] = 10 := by decide
  have hcreated : worthAll coin.token ((pay extra).outputs (.countingFrom 0) payment) = 10 := by
    show worthAll coin.token [⟨coin.token, 10, coin.owners, 0⟩] = 10
    decide
  have hnet : Particle.net coin.token ((pay extra).particles (.countingFrom 0) payment) = 0 := by
    rw [TransferBuilder.particles, Particle.net_append, Particle.net_append,
      Particle.net_consumers, Particle.net_consumables, hcreated]
    show -worthAll coin.token [coin] + 10 + Particle.net coin.token extra = 0
    omega
  exact sub_eq_zero.1 hnet

end Sample

namespace TransferBuilder

/-- A transfer that is built conserves its own token. It is balanced, which is to say that it creates
as much of every token as it spends, exactly if of every other token the extra particles create what
they and the policy spend; with the usual policy, exactly if the extra particles create what they
spend. -/
theorem built_conserves (h : b.build nonces now coins = .ok u) :
    worthAll b.token u.atom.consumables = worthAll b.token u.atom.consumers ∧
    (u.atom.isBalanced ↔ ∀ t, worthAll t u.atom.consumables = worthAll t u.atom.consumers) ∧
    (u.atom.isBalanced ↔ ∀ t, t ≠ b.token →
      worthAll t (b.extraParticles.filterMap Particle.created?) =
        worthAll t u.selection.spent +
          worthAll t (b.extraParticles.filterMap Particle.consumed?)) ∧
    (b.selector = greedyFirstFit → (u.atom.isBalanced ↔ ∀ t, t ≠ b.token →
      worthAll t (b.extraParticles.filterMap Particle.created?) =
        worthAll t (b.extraParticles.filterMap Particle.consumed?))) := by
  obtain ⟨s, hs, rfl, hown⟩ := build_eq_ok_iff.1 h
  have hbalanced : (b.assemble nonces now s).isBalanced ↔ ∀ t, t ≠ b.token →
      worthAll t (b.extraParticles.filterMap Particle.created?) =
        worthAll t s.spent + worthAll t (b.extraParticles.filterMap Particle.consumed?) := by
    rw [Atom.isBalanced_iff]
    constructor
    · intro hall t ht
      have hnet := net_assemble_of_ne nonces now s ht
      have hequal := hall t
      rw [Particle.net] at hnet
      omega
    · intro hothers t
      by_cases ht : t = b.token
      · rw [ht]
        exact hown
      · have hnet := net_assemble_of_ne nonces now s ht
        have hequal := hothers t ht
        rw [Particle.net] at hnet
        omega
  refine ⟨hown, Atom.isBalanced_iff, hbalanced, fun hgreedy => hbalanced.trans ?_⟩
  apply forall_congr'
  intro t
  apply imp_congr_right
  intro ht
  rw [worthAll_spent_of_greedy hgreedy hs ht, zero_add]

/-- A transfer without extra particles is built, and is balanced. -/
theorem built_conserves_plain :
    (Sample.pay []).build (.countingFrom 0) 1000 [Sample.coin] = .ok (Sample.paid []) ∧
      (Sample.paid []).atom.isBalanced := by
  have hbuilt : (Sample.pay []).build (.countingFrom 0) 1000 [Sample.coin] = .ok (Sample.paid []) :=
    Sample.build_pay rfl
  refine ⟨hbuilt, ((built_conserves hbuilt).2.2.2 rfl).2 ?_⟩
  intro t ht
  rfl

/-- A transfer that creates a coin of another token from nothing is built all the same. -/
theorem built_unbalanced :
    (Sample.pay [.consumable Sample.gold]).build (.countingFrom 0) 1000 [Sample.coin] =
        .ok (Sample.paid [.consumable Sample.gold]) ∧
      (Sample.paid [.consumable Sample.gold]).atom.isBalanced = false := by
  refine ⟨Sample.build_pay (by decide), ?_⟩
  have hgold : worthAll Sample.gold.token (Sample.paid [.consumable Sample.gold]).atom.consumables ≠
      worthAll Sample.gold.token (Sample.paid [.consumable Sample.gold]).atom.consumers := by
    decide
  rw [← Bool.not_eq_true, Atom.isBalanced_iff]
  intro hall
  exact hgold (hall Sample.gold.token)

end TransferBuilder

end ParticleLedger
