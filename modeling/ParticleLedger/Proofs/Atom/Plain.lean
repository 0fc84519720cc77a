import ParticleLedger.Proofs.Hash.Evaluation
import ParticleLedger.Proofs.Reconciler.History

/-!
# Plain atoms

An atom that creates one coin, and an atom that spends some coins and does nothing else, with what a
scope sees of them. The module ends with two coins and some atoms over the first whose names differ.
-/

namespace ParticleLedger

namespace Atom

/-- An atom that creates a coin. -/
def creating (c : Coin) (timestamp : UInt64) : Atom :=
  .unsigned [.consumable c] timestamp none

/-- An atom that spends coins. -/
def spending (coins : List Coin) (timestamp : UInt64) : Atom :=
  .unsigned (coins.map .consumer) timestamp none

variable {c : Coin} {coins : List Coin} {timestamp : UInt64} {scope : Scope}

@[simp] theorem consumers_creating : (creating c timestamp).consumers = [] := rfl

@[simp] theorem consumables_creating : (creating c timestamp).consumables = [c] := rfl

@[simp] theorem consumers_spending : (spending coins timestamp).consumers = coins := by
  simp [consumers, spending, unsigned, List.filterMap_map, Function.comp_def, Particle.consumed?]

@[simp] theorem consumables_spending : (spending coins timestamp).consumables = [] := by
  simp [consumables, spending, unsigned, List.filterMap_map, Function.comp_def, Particle.created?]

@[simp] theorem consumed_creating : scope.consumed (creating c timestamp) = [] := by
  simp [Scope.consumed]

@[simp] theorem created_spending : scope.created (spending coins timestamp) = [] := by
  simp [Scope.created]

@[simp] theorem creates_spending : scope.creates (spending coins timestamp) = [] := by
  simp [Scope.creates]

theorem created_creating (h : scope.relevant c) :
    scope.created (creating c timestamp) = [(c.id, c)] := by
  simp [Scope.created, h]

theorem creates_creating (h : scope.relevant c) :
    scope.creates (creating c timestamp) = [c.id] := by
  simp [Scope.creates, created_creating h]

theorem consumed_spending (h : ∀ c ∈ coins, scope.relevant c) :
    scope.consumed (spending coins timestamp) = coins.map Coin.id := by
  simp [Scope.consumed, List.filter_eq_self.2 h]

end Atom

/-- One of the owners is enough for a coin to be an account's. -/
theorem Coin.ownedBy_iff {c : Coin} {a : Address} : c.ownedBy a ↔ a.key ∈ c.owners := by
  simp [ownedBy, KeySet.includes]

/-- Who is the only owner of a coin owns it. -/
theorem Coin.ownedBy_single (token : TokenRef) (quantity nonce : UInt64) (a : Address) :
    (Coin.mk token quantity (KeySet.single a.key) nonce).ownedBy a := by
  simp [ownedBy_iff, KeySet.single, KeySet.ofList]

/-! ## Two coins, and atoms over the first -/

namespace Sample

/-- An account. -/
def address : Address := ⟨⟨Vector.replicate 32 1⟩⟩

/-- The scope of all tokens of the account. -/
def scope : Scope := ⟨address, .any⟩

/-- Ten of a token that the account issues, owned by the account. -/
def coin : Coin := ⟨⟨address, "XRD"⟩, 10, KeySet.single address.key, 1⟩

/-- Five of another token that the account issues. -/
def gold : Coin := ⟨⟨address, "GOLD"⟩, 5, KeySet.single address.key, 2⟩

/-- Creates the coin. -/
def issue : Atom := .creating coin 1

/-- Spends the coin. -/
def spend : Atom := .spending [coin] 2

/-- Creates the coin at another time. -/
def reissue : Atom := .creating coin 3

/-- Spends the coin twice over. -/
def overspend : Atom := .spending [coin, coin] 4

/-- Spends the coin and creates it again. -/
def renew : Atom := .unsigned [.consumer coin, .consumable coin] 5 none

theorem ownedBy_coin : coin.ownedBy address :=
  Coin.ownedBy_single _ _ _ _

theorem relevant_coin : scope.relevant coin := by
  simpa [Scope.relevant, scope, TokenFilter.accepts] using ownedBy_coin

theorem ownedBy_gold : gold.ownedBy address :=
  Coin.ownedBy_single _ _ _ _

theorem relevant_gold : scope.relevant gold := by
  simpa [Scope.relevant, scope, TokenFilter.accepts] using ownedBy_gold

/-- Digests are evaluated together, which takes less memory than one evaluation for each. -/
theorem leadingBytes_coins : coin.leadingByte = some 108 ∧ gold.leadingByte = some 54 := by
  decide +kernel

theorem leadingByte_coin : coin.leadingByte = some 108 := leadingBytes_coins.1

theorem leadingByte_gold : gold.leadingByte = some 54 := leadingBytes_coins.2

theorem coin_id_ne_gold_id : coin.id ≠ gold.id := by
  have hdistinct : ([coin, gold].map Coin.id).Nodup :=
    Coin.nodup_ids_of_leadingBytes (by simp [leadingByte_coin, leadingByte_gold])
  simpa using hdistinct

@[simp] theorem consumed_issue : scope.consumed issue = [] := Atom.consumed_creating

@[simp] theorem consumed_spend : scope.consumed spend = [coin.id] :=
  Atom.consumed_spending (by simp [relevant_coin])

@[simp] theorem consumed_reissue : scope.consumed reissue = [] := Atom.consumed_creating

@[simp] theorem consumed_overspend : scope.consumed overspend = [coin.id, coin.id] :=
  Atom.consumed_spending (by simp [relevant_coin])

theorem consumers_renew : renew.consumers = [coin] := rfl

theorem consumables_renew : renew.consumables = [coin] := rfl

@[simp] theorem consumed_renew : scope.consumed renew = [coin.id] := by
  simp [Scope.consumed, consumers_renew, relevant_coin]

@[simp] theorem creates_issue : scope.creates issue = [coin.id] :=
  Atom.creates_creating relevant_coin

@[simp] theorem creates_spend : scope.creates spend = [] := Atom.creates_spending

@[simp] theorem creates_reissue : scope.creates reissue = [coin.id] :=
  Atom.creates_creating relevant_coin

@[simp] theorem creates_overspend : scope.creates overspend = [] := Atom.creates_spending

@[simp] theorem creates_renew : scope.creates renew = [coin.id] := by
  simp [Scope.creates, Scope.created, consumables_renew, relevant_coin]

theorem leadingBytes_atoms : issue.leadingByte = some 48 ∧ spend.leadingByte = some 3 ∧
    reissue.leadingByte = some 100 ∧ overspend.leadingByte = some 100 ∧
    renew.leadingByte = some 3 := by
  decide +kernel

theorem leadingByte_issue : issue.leadingByte = some 48 := leadingBytes_atoms.1

theorem leadingByte_spend : spend.leadingByte = some 3 := leadingBytes_atoms.2.1

theorem leadingByte_reissue : reissue.leadingByte = some 100 := leadingBytes_atoms.2.2.1

theorem leadingByte_overspend : overspend.leadingByte = some 100 := leadingBytes_atoms.2.2.2.1

theorem leadingByte_renew : renew.leadingByte = some 3 := leadingBytes_atoms.2.2.2.2

/-- The coin can be spent after it was created, and then created again. -/
theorem orderly_reissue : scope.Orderly [issue, spend, reissue] := by
  rw [show [issue, spend, reissue] = (([] ++ [issue]) ++ [spend]) ++ [reissue] from rfl]
  simp only [Scope.orderly_concat_iff, LedgerView.replayAll_concat]
  refine ⟨⟨⟨Scope.orderly_nil, ?_⟩, ?_⟩, ?_⟩ <;> constructor <;> simp [LedgerView.mem_replay]

theorem orderly_spend : scope.Orderly [issue, spend] :=
  orderly_reissue.of_prefix ⟨[reissue], rfl⟩

theorem orderly_issue : scope.Orderly [issue] :=
  orderly_spend.of_prefix ⟨[spend], rfl⟩

/-- An atom that lists the coin twice can spend it as well. -/
theorem orderly_overspend : scope.Orderly [issue, overspend] := by
  rw [show [issue, overspend] = ([] ++ [issue]) ++ [overspend] from rfl]
  simp only [Scope.orderly_concat_iff, LedgerView.replayAll_concat]
  refine ⟨⟨Scope.orderly_nil, ?_⟩, ?_⟩ <;> constructor <;> simp [LedgerView.mem_replay]

theorem distinct_reissue : ([issue, spend, reissue].map Atom.id).Nodup :=
  Atom.nodup_ids_of_leadingBytes (by
    simp [leadingByte_issue, leadingByte_spend, leadingByte_reissue])

theorem distinct_spend : ([issue, spend].map Atom.id).Nodup :=
  Atom.nodup_ids_of_leadingBytes (by simp [leadingByte_issue, leadingByte_spend])

theorem distinct_overspend : ([issue, overspend].map Atom.id).Nodup :=
  Atom.nodup_ids_of_leadingBytes (by simp [leadingByte_issue, leadingByte_overspend])

theorem distinct_double_spend : ([issue, spend, overspend].map Atom.id).Nodup :=
  Atom.nodup_ids_of_leadingBytes (by
    simp [leadingByte_issue, leadingByte_spend, leadingByte_overspend])

theorem distinct_renew : ([issue, renew].map Atom.id).Nodup :=
  Atom.nodup_ids_of_leadingBytes (by simp [leadingByte_issue, leadingByte_renew])

end Sample

end ParticleLedger
