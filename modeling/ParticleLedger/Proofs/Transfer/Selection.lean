import Mathlib.Algebra.BigOperators.Group.List.Basic
import Mathlib.Algebra.Ring.Nat
import ParticleLedger.Transfer.Selection

/-!
# What the usual policy chooses

The usual policy spends coins whole, from the front of those on offer, until they cover the amount.
It counts in words of 64 bits, and the sum of what it spends stays at the greatest word instead of
wrapping. The same walk with numbers that have no bound (`Tally`) goes along with it coin by coin:
as long as the amount is not covered nothing has reached the bound, and the coin that covers the
amount is the last. So the answer is the exact one, whatever the coins hold.

Main statements: `Tally.Sound.add` (what the exact walk keeps), `Pick.Counts.add` (the walk over
words keeps up with it), `greedyFirstFit_eq_ok_iff` and `greedyFirstFit_exact`.
-/

namespace ParticleLedger

/-! ## Words of 64 bits -/

theorem toNat_saturatingAdd (x y : UInt64) :
    (saturatingAdd x y).toNat = min (x.toNat + y.toNat) (2 ^ 64 - 1) := by
  unfold saturatingAdd
  split
  · next h =>
    have hsum : x.toNat + y.toNat < 2 ^ 64 := h
    rw [UInt64.toNat_add, Nat.mod_eq_of_lt hsum]
    omega
  · next h =>
    have hsum : ¬x.toNat + y.toNat < 2 ^ 64 := h
    show (UInt64.ofNat (2 ^ 64 - 1)).toNat = _
    rw [UInt64.toNat_ofNat_of_lt' (by decide)]
    omega

theorem toNat_min (x y : UInt64) : (min x y).toNat = min x.toNat y.toNat := by
  show (if x ≤ y then x else y).toNat = _
  by_cases h : x ≤ y
  · have hle : x.toNat ≤ y.toNat := h
    rw [if_pos h]
    omega
  · have hlt : y.toNat < x.toNat := UInt64.not_le.1 h
    rw [if_neg h]
    omega

/-! ## The shortest front that covers an amount -/

namespace Coin

/-- What some coins hold together, whatever their tokens. -/
def quantityAll (coins : List Coin) : Nat :=
  (coins.map (·.quantity.toNat)).sum

@[simp] theorem quantityAll_nil : quantityAll [] = 0 := rfl

@[simp] theorem quantityAll_cons (c : Coin) (rest : List Coin) :
    quantityAll (c :: rest) = c.quantity.toNat + quantityAll rest := by
  simp [quantityAll]

@[simp] theorem quantityAll_append (first later : List Coin) :
    quantityAll (first ++ later) = quantityAll first + quantityAll later := by
  simp [quantityAll]

@[simp] theorem quantityAll_singleton (c : Coin) : quantityAll [c] = c.quantity.toNat := by
  simp [quantityAll]

theorem quantityAll_le_of_sublist {part coins : List Coin} (h : part.Sublist coins) :
    quantityAll part ≤ quantityAll coins := by
  induction h with
  | slnil => exact Nat.le_refl _
  | cons c _ ih =>
    rw [quantityAll_cons]
    omega
  | cons_cons c _ ih =>
    rw [quantityAll_cons, quantityAll_cons]
    omega

/-- The shortest front of a list of coins that covers an amount. -/
structure ShortestCover (amount : Nat) (coins front : List Coin) : Prop where
  isPrefix : front <+: coins
  covers : amount ≤ quantityAll front
  shortest : ∀ other, other <+: coins → amount ≤ quantityAll other → front.length ≤ other.length

namespace ShortestCover

variable {amount : Nat} {coins front other : List Coin}

theorem unique (h : ShortestCover amount coins front) (hother : ShortestCover amount coins other) :
    front = other := by
  apply List.IsPrefix.eq_of_length
  · apply List.prefix_of_prefix_length_le h.isPrefix hother.isPrefix
    exact h.shortest other hother.isPrefix hother.covers
  · apply Nat.le_antisymm
    · exact h.shortest other hother.isPrefix hother.covers
    · exact hother.shortest front h.isPrefix h.covers

/-- What is covered beyond the amount is part of the last coin. -/
theorem exists_last (h : ShortestCover amount coins front) (hpositive : 0 < amount) :
    ∃ before last, front = before ++ [last] ∧ quantityAll before < amount := by
  have hcovers := h.covers
  rcases List.eq_nil_or_concat' front with rfl | ⟨before, last, rfl⟩
  · rw [quantityAll_nil] at hcovers
    omega
  · refine ⟨before, last, rfl, ?_⟩
    by_contra hlong
    have hfront : before <+: coins := (List.prefix_append before [last]).trans h.isPrefix
    have hshorter := h.shortest before hfront (by omega)
    rw [List.length_append, List.length_singleton] at hshorter
    omega

end ShortestCover

end Coin

open Coin (quantityAll ShortestCover)

/-! ## The walk with numbers that have no bound -/

/-- What a walk over coins has picked up so far. -/
structure Tally where
  spent : List Coin
  total : Nat
  taken : Nat
  change : Option (KeySet × Nat)

namespace Tally

variable {amount : Nat} {w : Tally} {coin : Coin} {coins : List Coin}

/-- Nothing yet. -/
def start : Tally := ⟨[], 0, 0, none⟩

/-- The walk spends one coin more. -/
def add (amount : Nat) (w : Tally) (coin : Coin) : Tally :=
  let take := min (amount - w.total) coin.quantity.toNat
  let change := coin.quantity.toNat - take
  { spent := w.spent ++ [coin]
    total := w.total + coin.quantity.toNat
    taken := w.taken + take
    change := if 0 < change then some (coin.owners, change) else w.change }

/-- The walk goes on until the amount is covered. -/
def walk (amount : Nat) : Tally → List Coin → Tally
  | w, [] => w
  | w, coin :: rest => if amount ≤ w.total then w else walk amount (w.add amount coin) rest

/-- What is true of a walk at any time: its numbers are those of the coins it has spent, and all of
these were needed. -/
structure Sound (amount : Nat) (w : Tally) : Prop where
  total_eq : w.total = quantityAll w.spent
  taken_eq : w.taken = min amount w.total
  change_eq : w.change = if amount < w.total then
    w.spent.getLast?.map fun c => (c.owners, w.total - amount) else none
  needed : ∀ front, front <+: w.spent → front ≠ w.spent → quantityAll front < amount

theorem Sound.start (amount : Nat) : Tally.start.Sound amount where
  total_eq := rfl
  taken_eq := (Nat.min_zero amount).symm
  change_eq := by simp [Tally.start]
  needed front hfront hne := absurd (List.prefix_nil.1 hfront) hne

/-- A walk that has not covered the amount may go on. -/
theorem Sound.add (h : w.Sound amount) (hshort : w.total < amount) (coin : Coin) :
    (w.add amount coin).Sound amount where
  total_eq := by
    show w.total + coin.quantity.toNat = quantityAll (w.spent ++ [coin])
    rw [Coin.quantityAll_append, Coin.quantityAll_singleton, h.total_eq]
  taken_eq := by
    have htaken := h.taken_eq
    show w.taken + min (amount - w.total) coin.quantity.toNat =
      min amount (w.total + coin.quantity.toNat)
    omega
  change_eq := by
    -- Before this coin there was nothing to give back.
    have hnone : w.change = none := by
      rw [h.change_eq, if_neg (by omega)]
    show (if 0 < coin.quantity.toNat - min (amount - w.total) coin.quantity.toNat then _ else _) =
      if amount < w.total + coin.quantity.toNat then _ else _
    rw [hnone]
    by_cases hcovered : amount < w.total + coin.quantity.toNat
    · have hchange : coin.quantity.toNat - min (amount - w.total) coin.quantity.toNat =
          w.total + coin.quantity.toNat - amount := by
        omega
      rw [if_pos (by omega), if_pos hcovered, hchange]
      simp [Tally.add]
    · rw [if_neg (by omega), if_neg hcovered]
  needed front hfront hne := by
    rcases List.prefix_concat_iff.1 hfront with heq | hbefore
    · exact absurd heq hne
    · have hle := Coin.quantityAll_le_of_sublist hbefore.sublist
      rw [← h.total_eq] at hle
      omega

theorem Sound.walk (h : w.Sound amount) (coins : List Coin) : (w.walk amount coins).Sound amount := by
  induction coins generalizing w with
  | nil => exact h
  | cons coin rest ih =>
    unfold Tally.walk
    split
    · exact h
    · next hshort => exact ih (h.add (Nat.lt_of_not_le hshort) coin)

/-- A walk spends coins from the front, and stops before the end only if the amount is covered. -/
theorem exists_spent_walk (amount : Nat) (w : Tally) (coins : List Coin) :
    ∃ picked rest, coins = picked ++ rest ∧ (w.walk amount coins).spent = w.spent ++ picked ∧
      (rest = [] ∨ amount ≤ (w.walk amount coins).total) := by
  induction coins generalizing w with
  | nil => exact ⟨[], [], rfl, by simp [walk], .inl rfl⟩
  | cons coin rest ih =>
    unfold walk
    split
    · next hcovered => exact ⟨[], coin :: rest, rfl, by simp, .inr hcovered⟩
    · obtain ⟨picked, left, rfl, hspent, hend⟩ := ih (w.add amount coin)
      refine ⟨coin :: picked, left, rfl, ?_, hend⟩
      rw [hspent]
      simp [add]

/-- A walk over coins that do not cover the amount spends them all. -/
theorem spent_walk_of_short (h : quantityAll coins < amount) :
    (start.walk amount coins).spent = coins := by
  obtain ⟨picked, rest, rfl, hspent, hend⟩ := exists_spent_walk amount start coins
  have hpicked : (start.walk amount (picked ++ rest)).spent = picked := hspent
  rcases hend with rfl | hcovered
  · rw [hpicked, List.append_nil]
  · rw [((Sound.start amount).walk _).total_eq, hpicked] at hcovered
    rw [Coin.quantityAll_append] at h
    omega

/-- A walk over coins that cover the amount spends the shortest front that does. -/
theorem shortestCover_walk (h : amount ≤ quantityAll coins) :
    ShortestCover amount coins (start.walk amount coins).spent := by
  obtain ⟨picked, rest, hcoins, hspent, hend⟩ := exists_spent_walk amount start coins
  have hsound := (Sound.start amount).walk coins
  have hpicked : (start.walk amount coins).spent = picked := hspent
  have hcovers : amount ≤ quantityAll picked := by
    rcases hend with rfl | hcovered
    · rwa [hcoins, List.append_nil] at h
    · rwa [hsound.total_eq, hpicked] at hcovered
  rw [hpicked]
  refine ⟨⟨rest, hcoins.symm⟩, hcovers, ?_⟩
  intro other hother hcovered
  by_contra hshorter
  have hfront : other <+: picked := by
    apply List.prefix_of_prefix_length_le hother ⟨rest, hcoins.symm⟩
    omega
  have hneeded := hsound.needed other (hpicked.symm ▸ hfront) (by
    rw [hpicked]
    rintro rfl
    omega)
  omega

end Tally

/-! ## The walk over words -/

namespace Pick

variable {amount : UInt64} {p : Pick} {w : Tally} {coin : Coin} {coins : List Coin}

/-- Nothing yet. -/
def start : Pick := ⟨[], 0, 0, none⟩

/-- The walk spends one coin more. -/
def add (amount : UInt64) (p : Pick) (coin : Coin) : Pick :=
  let take := min (amount - p.total) coin.quantity
  let change := coin.quantity - take
  { spent := p.spent ++ [coin]
    total := saturatingAdd p.total coin.quantity
    taken := p.taken + take
    change := if 0 < change then some (coin.owners, change) else p.change }

/-- The walk goes on until the amount is covered. -/
def walk (amount : UInt64) : Pick → List Coin → Pick
  | p, [] => p
  | p, coin :: rest => if amount ≤ p.total then p else walk amount (p.add amount coin) rest

/-- What a walk has picked up before stays in front of what it picks up from now on. -/
theorem walk_eq (amount : UInt64) (p : Pick) (coins : List Coin) :
    p.walk amount coins =
      { spent := p.spent ++ (pick amount p.total coins).spent
        total := (pick amount p.total coins).total
        taken := p.taken + (pick amount p.total coins).taken
        change := (pick amount p.total coins).change.or p.change } := by
  induction coins generalizing p with
  | nil => simp [walk, pick]
  | cons coin rest ih =>
    unfold walk pick
    split
    · simp
    · rw [ih]
      simp only [add, List.append_assoc, List.singleton_append, UInt64.add_assoc, Option.or_assoc,
        Pick.mk.injEq, true_and]
      split <;> rfl

theorem pick_eq_walk (amount : UInt64) (coins : List Coin) :
    pick amount 0 coins = start.walk amount coins := by
  rw [walk_eq]
  simp [start]

/-- A walk over words agrees with one that counts without bound; only the sum of what is spent may
have reached the greatest word. -/
structure Counts (p : Pick) (w : Tally) : Prop where
  spent_eq : p.spent = w.spent
  total_eq : p.total.toNat = min w.total (2 ^ 64 - 1)
  taken_eq : p.taken.toNat = w.taken
  change_eq : (p.change.map fun c => (c.1, c.2.toNat)) = w.change

/-- No operation by which the walk spends a coin leaves the range of 64 bits, the sum of what is
spent apart. -/
structure InRange (amount : UInt64) (p : Pick) (coin : Coin) : Prop where
  missing : p.total ≤ amount
  change : min (amount - p.total) coin.quantity ≤ coin.quantity
  taken : p.taken.toNat + (min (amount - p.total) coin.quantity).toNat < 2 ^ 64

theorem Counts.start : Pick.start.Counts .start :=
  ⟨rfl, rfl, rfl, rfl⟩

theorem Counts.total_lt_iff (h : p.Counts w) : p.total < amount ↔ w.total < amount.toNat := by
  have hamount := amount.toNat_lt
  have htotal := h.total_eq
  show p.total.toNat < amount.toNat ↔ _
  omega

/-- What is taken of the next coin. -/
theorem Counts.toNat_take (h : p.Counts w) (hshort : w.total < amount.toNat) (coin : Coin) :
    p.total.toNat = w.total ∧
      (min (amount - p.total) coin.quantity).toNat =
        min (amount.toNat - w.total) coin.quantity.toNat := by
  have hamount := amount.toNat_lt
  have htotal : p.total.toNat = w.total := by
    rw [h.total_eq]
    omega
  have hmissing : (amount - p.total).toNat = amount.toNat - w.total := by
    rw [UInt64.toNat_sub_of_le _ _ (Nat.le_of_lt (h.total_lt_iff.2 hshort)), htotal]
  exact ⟨htotal, by rw [toNat_min, hmissing]⟩

theorem Counts.inRange (h : p.Counts w) (hsound : w.Sound amount.toNat)
    (hshort : w.total < amount.toNat) (coin : Coin) : p.InRange amount coin := by
  have hamount := amount.toNat_lt
  have htaken := hsound.taken_eq
  obtain ⟨-, htake⟩ := h.toNat_take hshort coin
  refine ⟨Nat.le_of_lt (h.total_lt_iff.2 hshort), ?_, ?_⟩
  · show (min (amount - p.total) coin.quantity).toNat ≤ coin.quantity.toNat
    omega
  · rw [h.taken_eq, htake]
    omega

theorem Counts.add (h : p.Counts w) (hsound : w.Sound amount.toNat)
    (hshort : w.total < amount.toNat) (coin : Coin) :
    (p.add amount coin).Counts (w.add amount.toNat coin) := by
  have hrange := h.inRange hsound hshort coin
  obtain ⟨htotal, htake⟩ := h.toNat_take hshort coin
  have hchange : (coin.quantity - min (amount - p.total) coin.quantity).toNat =
      coin.quantity.toNat - min (amount.toNat - w.total) coin.quantity.toNat := by
    rw [UInt64.toNat_sub_of_le _ _ hrange.change, htake]
  constructor
  · show p.spent ++ [coin] = w.spent ++ [coin]
    rw [h.spent_eq]
  · show (saturatingAdd p.total coin.quantity).toNat = min (w.total + coin.quantity.toNat) _
    rw [toNat_saturatingAdd, htotal]
  · show (p.taken + min (amount - p.total) coin.quantity).toNat = w.taken + _
    rw [UInt64.toNat_add, Nat.mod_eq_of_lt hrange.taken, h.taken_eq, htake]
  · show (if 0 < coin.quantity - min (amount - p.total) coin.quantity then _ else _ : Option _).map _ =
      if 0 < coin.quantity.toNat - min (amount.toNat - w.total) coin.quantity.toNat then _ else _
    have hsome : 0 < coin.quantity - min (amount - p.total) coin.quantity ↔
        0 < coin.quantity.toNat - min (amount.toNat - w.total) coin.quantity.toNat := by
      rw [← hchange]
      exact UInt64.lt_iff_toNat_lt
    by_cases hleft : 0 < coin.quantity - min (amount - p.total) coin.quantity
    · rw [if_pos hleft, if_pos (hsome.1 hleft), Option.map_some, hchange]
    · rw [if_neg hleft, if_neg fun hpos => hleft (hsome.2 hpos), h.change_eq]

theorem Counts.walk (h : p.Counts w) (hsound : w.Sound amount.toNat) (coins : List Coin) :
    (p.walk amount coins).Counts (w.walk amount.toNat coins) := by
  induction coins generalizing p w with
  | nil => exact h
  | cons coin rest ih =>
    unfold Pick.walk Tally.walk
    by_cases hshort : w.total < amount.toNat
    · rw [if_neg (UInt64.not_le.2 (h.total_lt_iff.2 hshort)), if_neg (Nat.not_le.2 hshort)]
      exact ih (h.add hsound hshort coin) (hsound.add hshort coin)
    · rw [if_pos (UInt64.not_lt.1 fun hlt => hshort (h.total_lt_iff.1 hlt)),
        if_pos (Nat.not_lt.1 hshort)]
      exact h

end Pick

/-! ## The answer -/

/-- The answer of the policy when it counts without bound. -/
def exactFit : CoinSelector := fun coins amount recipient =>
  if amount = 0 then .error (.invalidTransfer .zeroAmount)
  else
    let w := Tally.start.walk amount.toNat coins
    if w.total < amount.toNat then .error (.insufficientFunds (.ofNat w.total) amount)
    else
      let change := w.change.map fun c => (c.1, UInt64.ofNat c.2)
      .ok ⟨w.spent, (recipient, .ofNat w.taken) :: change.toList⟩

/-- What the last of the coins spent holds beyond the amount, with its owners. -/
def excess (amount : UInt64) (spent : List Coin) : Option (KeySet × UInt64) :=
  if amount.toNat < quantityAll spent then
    spent.getLast?.map fun c => (c.owners, UInt64.ofNat (quantityAll spent - amount.toNat))
  else none

section Answer

variable {coins spent : List Coin} {amount : UInt64} {recipient : KeySet} {s : Selection}

/-- That the sum stays at the greatest word changes no answer. -/
theorem greedyFirstFit_eq_exactFit (coins : List Coin) (amount : UInt64) (recipient : KeySet) :
    greedyFirstFit coins amount recipient = exactFit coins amount recipient := by
  unfold greedyFirstFit exactFit
  by_cases hzero : amount = 0
  · rw [if_pos hzero, if_pos hzero]
  · have hamount := amount.toNat_lt
    have hcounts := Pick.Counts.start.walk (.start amount.toNat) coins
    rw [← Pick.pick_eq_walk] at hcounts
    simp only [if_neg hzero, hcounts.total_lt_iff, hcounts.spent_eq, ← hcounts.taken_eq,
      ← hcounts.change_eq, UInt64.ofNat_toNat, Option.map_map, Function.comp_def, Option.map_id']
    split
    · next hshort =>
      -- A sum that does not reach the amount has not reached the greatest word.
      have htotal : UInt64.ofNat (Tally.start.walk amount.toNat coins).total =
          (pick amount 0 coins).total := by
        rw [← UInt64.toNat_inj, hcounts.total_eq, UInt64.toNat_ofNat_of_lt' (by
          show _ < 2 ^ 64
          omega)]
        omega
      rw [htotal]
    · rfl

theorem greedyFirstFit_of_zero (coins : List Coin) (recipient : KeySet) :
    greedyFirstFit coins 0 recipient = .error (.invalidTransfer .zeroAmount) := rfl

/-- Coins that do not cover the amount are refused with all that they hold. -/
theorem greedyFirstFit_of_short (hshort : quantityAll coins < amount.toNat) :
    greedyFirstFit coins amount recipient =
      .error (.insufficientFunds (.ofNat (quantityAll coins)) amount) := by
  have hpositive : amount ≠ 0 := by
    rintro rfl
    contradiction
  have htotal : (Tally.start.walk amount.toNat coins).total = quantityAll coins := by
    rw [((Tally.Sound.start _).walk _).total_eq, Tally.spent_walk_of_short hshort]
  rw [greedyFirstFit_eq_exactFit, exactFit, if_neg hpositive]
  simp only [htotal, if_pos hshort]

/-- Coins that cover the amount are spent up to the shortest front that does. -/
theorem greedyFirstFit_of_cover (hpositive : amount ≠ 0)
    (hcover : ShortestCover amount.toNat coins spent) :
    greedyFirstFit coins amount recipient =
      .ok ⟨spent, (recipient, amount) :: (excess amount spent).toList⟩ := by
  have hcovered : amount.toNat ≤ quantityAll coins :=
    Nat.le_trans hcover.covers (Coin.quantityAll_le_of_sublist hcover.isPrefix.sublist)
  have hsound := (Tally.Sound.start amount.toNat).walk coins
  have hspent : (Tally.start.walk amount.toNat coins).spent = spent :=
    (Tally.shortestCover_walk hcovered).unique hcover
  have htotal := hsound.total_eq
  rw [hspent] at htotal
  have hcovers := hcover.covers
  have htaken : UInt64.ofNat (Tally.start.walk amount.toNat coins).taken = amount := by
    rw [hsound.taken_eq, htotal, Nat.min_eq_left hcovers, UInt64.ofNat_toNat]
  have hchange : (Tally.start.walk amount.toNat coins).change.map
      (fun c => (c.1, UInt64.ofNat c.2)) = excess amount spent := by
    rw [hsound.change_eq, hspent, htotal, excess]
    split
    · rw [Option.map_map]
      rfl
    · rfl
  rw [greedyFirstFit_eq_exactFit, exactFit, if_neg hpositive]
  simp only [htotal, if_neg (Nat.not_lt.2 hcovers), hspent, htaken, hchange]

/-- The policy answers with a selection if the amount is positive and covered, and it is this one. -/
theorem greedyFirstFit_eq_ok_iff : greedyFirstFit coins amount recipient = .ok s ↔
    amount ≠ 0 ∧ ShortestCover amount.toNat coins s.spent ∧
      s.produced = (recipient, amount) :: (excess amount s.spent).toList := by
  constructor
  · intro h
    by_cases hzero : amount = 0
    · rw [hzero, greedyFirstFit_of_zero] at h
      contradiction
    by_cases hshort : quantityAll coins < amount.toNat
    · rw [greedyFirstFit_of_short hshort] at h
      contradiction
    · have hcover := Tally.shortestCover_walk (Nat.not_lt.1 hshort)
      rw [greedyFirstFit_of_cover hzero hcover] at h
      obtain rfl := Except.ok.inj h
      exact ⟨hzero, hcover, rfl⟩
  · rintro ⟨hpositive, hcover, hproduced⟩
    rw [greedyFirstFit_of_cover hpositive hcover, ← hproduced]

theorem exists_greedyFirstFit_iff : (∃ s, greedyFirstFit coins amount recipient = .ok s) ↔
    0 < amount ∧ amount.toNat ≤ quantityAll coins := by
  rw [UInt64.pos_iff_ne_zero]
  constructor
  · rintro ⟨s, hs⟩
    obtain ⟨hpositive, hcover, -⟩ := greedyFirstFit_eq_ok_iff.1 hs
    refine ⟨hpositive, ?_⟩
    exact Nat.le_trans hcover.covers (Coin.quantityAll_le_of_sublist hcover.isPrefix.sublist)
  · rintro ⟨hpositive, hcovered⟩
    exact ⟨_, greedyFirstFit_of_cover hpositive (Tally.shortestCover_walk hcovered)⟩

/-- The excess is less than the last coin holds, so it is exact. -/
theorem exists_excess (hpositive : amount ≠ 0) (hcover : ShortestCover amount.toNat coins spent) :
    ∃ (last : Coin) (left : UInt64), spent.getLast? = some last ∧
      left.toNat = quantityAll spent - amount.toNat ∧
      excess amount spent =
        if amount.toNat < quantityAll spent then some (last.owners, left) else none := by
  have hpos : 0 < amount.toNat := UInt64.lt_iff_toNat_lt.1 (UInt64.pos_iff_ne_zero.2 hpositive)
  obtain ⟨before, last, rfl, hbefore⟩ := hcover.exists_last hpos
  have hlast := last.quantity.toNat_lt
  refine ⟨last, .ofNat (quantityAll (before ++ [last]) - amount.toNat), List.getLast?_concat, ?_, ?_⟩
  · apply UInt64.toNat_ofNat_of_lt'
    rw [Coin.quantityAll_append, Coin.quantityAll_singleton]
    show _ < 2 ^ 64
    omega
  · rw [excess, List.getLast?_concat, Option.map_some]

/-- The excess goes back to the owners of a coin that is spent. -/
theorem owners_of_mem_excess {left : KeySet × UInt64} (h : left ∈ excess amount spent) :
    ∃ c ∈ spent, c.owners = left.1 := by
  unfold excess at h
  split at h
  · obtain ⟨last, hlast, rfl⟩ := Option.map_eq_some_iff.1 h
    exact ⟨last, List.mem_of_getLast? hlast, rfl⟩
  · contradiction

/-- What is spent is what is produced. -/
theorem spentTotal_eq_producedTotal (h : greedyFirstFit coins amount recipient = .ok s) :
    s.spentTotal = s.producedTotal := by
  obtain ⟨hpositive, hcover, hproduced⟩ := greedyFirstFit_eq_ok_iff.1 h
  obtain ⟨last, left, -, hleft, hexcess⟩ := exists_excess hpositive hcover
  have hcovers := hcover.covers
  have hspent : s.spentTotal = quantityAll s.spent := rfl
  rw [hspent, Selection.producedTotal, hproduced, hexcess]
  split
  · show _ = amount.toNat + (left.toNat + 0)
    omega
  · show _ = amount.toNat + 0
    omega

end Answer

/-- **The usual policy is exact.** It chooses if the amount is positive and the coins hold that much
together. Then it spends the shortest front of the coins that holds the amount, and produces the
amount for the recipients and, if that front holds more, the rest for the owners of its last coin;
what is spent is what is produced. It refuses the amount zero, and otherwise answers with the amount
and all that the coins hold.

No answer depends on how large the sums are: it is the one that comes of counting without bound. The
walk goes over the coins as a loop does, and whenever it spends one more, none of its subtractions
falls below zero and the addition to what is taken does not wrap. -/
theorem greedyFirstFit_exact (coins : List Coin) (amount : UInt64) (recipient : KeySet) :
    ((∃ s, greedyFirstFit coins amount recipient = .ok s) ↔
      0 < amount ∧ amount.toNat ≤ quantityAll coins) ∧
    (∀ s, greedyFirstFit coins amount recipient = .ok s →
      ShortestCover amount.toNat coins s.spent ∧
      (∃ (last : Coin) (left : UInt64), s.spent.getLast? = some last ∧
        left.toNat = quantityAll s.spent - amount.toNat ∧
        s.produced = (recipient, amount) ::
          if amount.toNat < quantityAll s.spent then [(last.owners, left)] else []) ∧
      s.spentTotal = s.producedTotal) ∧
    (amount = 0 →
      greedyFirstFit coins amount recipient = .error (.invalidTransfer .zeroAmount)) ∧
    (0 < amount → quantityAll coins < amount.toNat → ∃ available : UInt64,
      available.toNat = quantityAll coins ∧
      greedyFirstFit coins amount recipient = .error (.insufficientFunds available amount)) ∧
    greedyFirstFit coins amount recipient = exactFit coins amount recipient ∧
    pick amount 0 coins = Pick.start.walk amount coins ∧
    ∀ before coin after, coins = before ++ coin :: after →
      (Pick.start.walk amount before).total < amount →
      (Pick.start.walk amount before).InRange amount coin := by
  refine ⟨exists_greedyFirstFit_iff, ?_, ?_, ?_, greedyFirstFit_eq_exactFit coins amount recipient,
    Pick.pick_eq_walk amount coins, ?_⟩
  · intro s hs
    obtain ⟨hpositive, hcover, hproduced⟩ := greedyFirstFit_eq_ok_iff.1 hs
    obtain ⟨last, left, hlast, hleft, hexcess⟩ := exists_excess hpositive hcover
    refine ⟨hcover, ⟨last, left, hlast, hleft, ?_⟩, spentTotal_eq_producedTotal hs⟩
    rw [hproduced, hexcess]
    split <;> rfl
  · rintro rfl
    exact greedyFirstFit_of_zero coins recipient
  · intro _ hshort
    refine ⟨_, ?_, greedyFirstFit_of_short hshort⟩
    exact UInt64.toNat_ofNat_of_lt' (Nat.lt_trans hshort amount.toNat_lt)
  · intro before coin after _ hrunning
    have hcounts := Pick.Counts.start.walk (.start amount.toNat) before
    exact hcounts.inRange ((Tally.Sound.start _).walk before) (hcounts.total_lt_iff.1 hrunning) coin

end ParticleLedger
