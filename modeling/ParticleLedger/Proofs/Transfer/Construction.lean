import ParticleLedger.Proofs.Transfer.Conservation

/-!
# What the usual policy builds

With the usual policy the outcome of building is known in advance. Of the coins of a snapshot only
those of the token to be transferred matter. The policy spends of them what it creates, so the check
of the finished atom passes exactly if the extra particles leave the token alone; otherwise what they
create of it less what they spend is what the check reports.

Main statements: `TransferBuilder.net_chosen`, `TransferBuilder.build_eq_ok_iff_of_usual` and
`TransferBuilder.build_exact`.
-/

namespace ParticleLedger

open Coin (worth worthAll quantityAll ShortestCover)

/-- Coins of one token are worth in it what they hold. -/
theorem Coin.worthAll_eq_quantityAll {t : TokenRef} {coins : List Coin}
    (h : ∀ c ∈ coins, c.token = t) : worthAll t coins = quantityAll coins := by
  induction coins with
  | nil => rfl
  | cons c rest ih =>
    have hworth : worth t c = c.quantity.toNat := if_pos (h c List.mem_cons_self)
    rw [Coin.worthAll_cons, hworth, Coin.quantityAll_cons, ih fun d hd => h d (List.mem_cons_of_mem _ hd)]
    omega

theorem token_of_mem_coinsOf {t : TokenRef} {coins : List Coin} {c : Coin}
    (h : c ∈ coinsOf t coins) : c.token = t := by
  simpa [coinsOf] using (List.mem_filter.1 h).2

namespace TransferBuilder

variable {b : TransferBuilder} {nonces : Nonces} {now : Int} {coins spent : List Coin}
  {u : UnsignedAtom}

/-! ## What is created -/

/-- The coin for the recipients. -/
def payment (b : TransferBuilder) (nonces : Nonces) : Coin :=
  ⟨b.token, b.amount, b.recipient, nonces 0⟩

/-- The coin that gives back what the coins spent hold beyond the amount. -/
def change (b : TransferBuilder) (nonces : Nonces) (spent : List Coin) : Option Coin :=
  (excess b.amount spent).map fun left => ⟨b.token, left.2, left.1, nonces 1⟩

/-- The choice of the usual policy that spends these coins. -/
def chosen (b : TransferBuilder) (spent : List Coin) : Selection :=
  ⟨spent, (b.recipient, b.amount) :: (excess b.amount spent).toList⟩

theorem outputs_chosen (b : TransferBuilder) (nonces : Nonces) (spent : List Coin) :
    b.outputs nonces (b.chosen spent) = b.payment nonces :: (b.change nonces spent).toList := by
  unfold outputs chosen change
  cases excess b.amount spent <;> rfl

theorem particles_chosen (b : TransferBuilder) (nonces : Nonces) (spent : List Coin) :
    b.particles nonces (b.chosen spent) = spent.map .consumer ++
      (b.payment nonces :: (b.change nonces spent).toList).map .consumable ++
      b.extraParticles := by
  rw [particles, outputs_chosen]
  rfl

theorem token_of_mem_change {c : Coin} (h : c ∈ b.change nonces spent) : c.token = b.token := by
  obtain ⟨left, -, rfl⟩ := Option.map_eq_some_iff.1 h
  rfl

/-- What is created holds what is spent. -/
theorem quantityAll_created (hpositive : b.amount ≠ 0)
    (hcover : ShortestCover b.amount.toNat coins spent) :
    quantityAll (b.payment nonces :: (b.change nonces spent).toList) = quantityAll spent := by
  have hcovers := hcover.covers
  obtain ⟨last, left, -, hleft, hexcess⟩ := exists_excess hpositive hcover
  rw [change, hexcess]
  split
  · show b.amount.toNat + (left.toNat + 0) = _
    omega
  · show b.amount.toNat + 0 = _
    omega

/-- Nothing is created that holds nothing. -/
theorem quantity_pos_of_mem_created {c : Coin} (hpositive : b.amount ≠ 0)
    (hcover : ShortestCover b.amount.toNat coins spent)
    (hc : c ∈ b.payment nonces :: (b.change nonces spent).toList) : 0 < c.quantity := by
  rcases List.mem_cons.1 hc with rfl | hc
  · exact UInt64.pos_iff_ne_zero.2 hpositive
  · obtain ⟨last, left, -, hleft, hexcess⟩ := exists_excess hpositive hcover
    rw [Option.mem_toList, change, hexcess] at hc
    split at hc
    · obtain rfl := Option.some_inj.1 hc
      apply UInt64.lt_iff_toNat_lt.2
      show 0 < left.toNat
      omega
    · contradiction

/-- Of the token to be transferred, the atom creates beyond what it spends what the extra particles
do. -/
theorem net_chosen (hpositive : b.amount ≠ 0)
    (hcover : ShortestCover b.amount.toNat (coinsOf b.token coins) spent) :
    Particle.net b.token (b.particles nonces (b.chosen spent)) =
      Particle.net b.token b.extraParticles := by
  have hspent : worthAll b.token spent = quantityAll spent := by
    apply Coin.worthAll_eq_quantityAll
    intro c hc
    exact token_of_mem_coinsOf (hcover.isPrefix.subset hc)
  have hcreated : worthAll b.token (b.payment nonces :: (b.change nonces spent).toList) =
      quantityAll spent := by
    rw [← quantityAll_created hpositive hcover]
    apply Coin.worthAll_eq_quantityAll
    intro c hc
    rcases List.mem_cons.1 hc with rfl | hc
    · rfl
    · exact token_of_mem_change (Option.mem_toList.1 hc)
  rw [particles_chosen, Particle.net_append, Particle.net_append, Particle.net_consumers,
    Particle.net_consumables, hspent, hcreated]
  omega

/-! ## When it is built -/

theorem select_congr {others : List Coin} (h : coinsOf b.token others = coinsOf b.token coins) :
    b.select others = b.select coins := by
  rw [select, select, h]

theorem build_congr {others : List Coin} (h : coinsOf b.token others = coinsOf b.token coins) :
    b.build nonces now others = b.build nonces now coins := by
  rw [build, build, select_congr h]

section Usual

variable (husual : b.selector = greedyFirstFit)
include husual

theorem build_of_zero (hzero : b.amount = 0) :
    b.build nonces now coins = .error (.invalidTransfer .zeroAmount) := by
  apply build_of_refused
  rw [select, husual, hzero, greedyFirstFit_of_zero]

theorem build_of_short (hshort : quantityAll (coinsOf b.token coins) < b.amount.toNat) :
    b.build nonces now coins = .error (.insufficientFunds
      (.ofNat (quantityAll (coinsOf b.token coins))) b.amount) := by
  apply build_of_refused
  rw [select, husual, greedyFirstFit_of_short hshort]

theorem select_of_cover (hpositive : b.amount ≠ 0)
    (hcover : ShortestCover b.amount.toNat (coinsOf b.token coins) spent) :
    b.select coins = .ok (b.chosen spent) := by
  rw [select, husual, greedyFirstFit_of_cover hpositive hcover]
  rfl

theorem build_of_cover (hpositive : b.amount ≠ 0)
    (hcover : ShortestCover b.amount.toNat (coinsOf b.token coins) spent) :
    b.build nonces now coins =
      if Particle.net b.token b.extraParticles = 0 then
        .ok ⟨b.assemble nonces now (b.chosen spent), b.chosen spent⟩
      else .error (.invalidTransfer (.unbalanced b.token
        (Particle.net b.token b.extraParticles))) := by
  rw [build_of_chosen (select_of_cover husual hpositive hcover), net_chosen hpositive hcover]

/-- What is built with the usual policy is known from the shortest front of the coins of the token
that covers the amount. -/
theorem build_eq_ok_iff_of_usual : b.build nonces now coins = .ok u ↔
    b.amount ≠ 0 ∧ Particle.net b.token b.extraParticles = 0 ∧
      ∃ spent, ShortestCover b.amount.toNat (coinsOf b.token coins) spent ∧
        u = ⟨b.assemble nonces now (b.chosen spent), b.chosen spent⟩ := by
  constructor
  · intro h
    by_cases hzero : b.amount = 0
    · rw [build_of_zero husual hzero] at h
      contradiction
    by_cases hshort : quantityAll (coinsOf b.token coins) < b.amount.toNat
    · rw [build_of_short husual hshort] at h
      contradiction
    · have hcover := Tally.shortestCover_walk (Nat.not_lt.1 hshort)
      rw [build_of_cover husual hzero hcover] at h
      split at h
      · next hnet => exact ⟨hzero, hnet, _, hcover, (Except.ok.inj h).symm⟩
      · contradiction
  · rintro ⟨hpositive, hnet, spent, hcover, rfl⟩
    rw [build_of_cover husual hpositive hcover, if_pos hnet]

end Usual

/-! ## With nothing added -/

section Plain

variable (hextra : b.extraParticles = [])
include hextra

theorem consumers_chosen (nonces : Nonces) (now : Int) (spent : List Coin) :
    (b.assemble nonces now (b.chosen spent)).consumers = spent := by
  show (b.particles nonces (b.chosen spent)).filterMap _ = _
  rw [particles_chosen, hextra]
  simp [List.filterMap_map, Function.comp_def, Particle.consumed?]

theorem consumables_chosen (nonces : Nonces) (now : Int) (spent : List Coin) :
    (b.assemble nonces now (b.chosen spent)).consumables =
      b.payment nonces :: (b.change nonces spent).toList := by
  show (b.particles nonces (b.chosen spent)).filterMap _ = _
  rw [particles_chosen, hextra]
  simp [List.filterMap_map, Function.comp_def, Particle.created?]

/-- What the usual policy builds then creates as much of every token as it spends. -/
theorem isBalanced_of_build (husual : b.selector = greedyFirstFit)
    (h : b.build nonces now coins = .ok u) : u.atom.isBalanced := by
  obtain ⟨s, hs, rfl, hown⟩ := build_eq_ok_iff.1 h
  rw [Atom.isBalanced_iff]
  intro t
  by_cases ht : t = b.token
  · rw [ht]
    exact hown
  · have hnet := net_assemble_of_ne nonces now s ht
    have hnone : Particle.net t b.extraParticles = 0 := by
      rw [hextra]
      rfl
    rw [worthAll_spent_of_greedy husual hs ht, hnone] at hnet
    show worthAll t (b.assemble nonces now s).consumables =
      worthAll t (b.assemble nonces now s).consumers
    omega

end Plain

/-- **Building with the usual policy is exact.** Of the coins of a snapshot those of the token count,
in their order. Building fails for the amount zero, then for want of funds, with all that these coins
hold, then if the extra particles create more or less of the token than they spend, with the
difference. Otherwise the atom consists of these particles in this order: the shortest front of the
coins that covers the amount is spent, the amount is created for the recipients with the first nonce,
what that front holds beyond the amount is created for the owners of its last coin with the second
nonce, and the extra particles follow as they are. It has the payload and the timestamp it was given,
or the clock's, and no signatures. Coins of other tokens make no difference. -/
theorem build_exact (husual : b.selector = greedyFirstFit) (nonces : Nonces) (now : Int)
    (coins : List Coin) :
    let offered := coinsOf b.token coins
    let stray := Particle.net b.token b.extraParticles
    (b.amount = 0 → b.build nonces now coins = .error (.invalidTransfer .zeroAmount)) ∧
    (0 < b.amount → quantityAll offered < b.amount.toNat → ∃ available : UInt64,
      available.toNat = quantityAll offered ∧
      b.build nonces now coins = .error (.insufficientFunds available b.amount)) ∧
    (0 < b.amount → b.amount.toNat ≤ quantityAll offered → stray ≠ 0 →
      b.build nonces now coins = .error (.invalidTransfer (.unbalanced b.token stray))) ∧
    (0 < b.amount → b.amount.toNat ≤ quantityAll offered → stray = 0 →
      ∃ (u : UnsignedAtom) (spent : List Coin) (last : Coin) (left : UInt64),
        b.build nonces now coins = .ok u ∧
        ShortestCover b.amount.toNat offered spent ∧ spent.getLast? = some last ∧
        left.toNat = quantityAll spent - b.amount.toNat ∧
        u.atom.particles = spent.map .consumer ++
          [.consumable ⟨b.token, b.amount, b.recipient, nonces 0⟩] ++
          (if b.amount.toNat < quantityAll spent then
            [.consumable ⟨b.token, left, last.owners, nonces 1⟩] else []) ++
          b.extraParticles ∧
        u.atom.payload = b.payload ∧
        u.atom.timestamp = b.timestamp.getD (timestampOf now) ∧
        u.atom.signatures = ∅) ∧
    ∀ others, coinsOf b.token others = offered →
      b.build nonces now others = b.build nonces now coins := by
  intro offered stray
  refine ⟨build_of_zero husual, ?_, ?_, ?_, fun others => build_congr⟩
  · intro _ hshort
    refine ⟨_, ?_, build_of_short husual hshort⟩
    exact UInt64.toNat_ofNat_of_lt' (hshort.trans b.amount.toNat_lt)
  · intro hpositive hcovered hstray
    have hcover := Tally.shortestCover_walk hcovered
    rw [build_of_cover husual (UInt64.pos_iff_ne_zero.1 hpositive) hcover, if_neg hstray]
  · intro hpositive hcovered hstray
    have hne := UInt64.pos_iff_ne_zero.1 hpositive
    have hcover := Tally.shortestCover_walk hcovered
    obtain ⟨last, left, hlast, hleft, hexcess⟩ := exists_excess hne hcover
    have hbuilt : b.build nonces now coins = .ok ⟨_, _⟩ :=
      (build_eq_ok_iff_of_usual husual).2 ⟨hne, hstray, _, hcover, rfl⟩
    refine ⟨_, _, last, left, hbuilt, hcover, hlast, hleft, ?_, rfl, rfl, rfl⟩
    show b.particles nonces (b.chosen _) = _
    rw [particles_chosen, change, hexcess]
    split <;> simp [payment]

/-- Four of ten are sent, with a coin of another token on offer and another added. -/
theorem build_exact_part :
    ∃ u, ({ Sample.pay [.consumable Sample.gold] with amount := 4 } : TransferBuilder).build
        (.countingFrom 7) 1000 [Sample.gold, Sample.coin] = .ok u ∧
      u.atom.particles = [.consumer Sample.coin,
        .consumable ⟨Sample.coin.token, 4, Sample.coin.owners, 7⟩,
        .consumable ⟨Sample.coin.token, 6, Sample.coin.owners, 8⟩, .consumable Sample.gold] := by
  have hoffered : coinsOf Sample.coin.token [Sample.gold, Sample.coin] = [Sample.coin] := rfl
  obtain ⟨-, -, -, hbuilds, -⟩ :=
    @build_exact { Sample.pay [.consumable Sample.gold] with amount := 4 } rfl (.countingFrom 7) 1000
      [Sample.gold, Sample.coin]
  obtain ⟨u, spent, last, left, hbuilt, hcover, hlast, hleft, hparticles, -⟩ :=
    hbuilds (by decide) (by decide) (by decide)
  obtain ⟨before, only, rfl, -⟩ := hcover.exists_last (by decide)
  have hfront : before ++ [only] <+: [Sample.coin] := hoffered ▸ hcover.isPrefix
  obtain ⟨rfl, rfl⟩ : before = [] ∧ only = Sample.coin := by
    cases before with
    | nil => simpa using hfront
    | cons => simp at hfront
  obtain rfl : left = 6 := UInt64.toNat_inj.1 hleft
  obtain rfl : Sample.coin = last := Option.some_inj.1 hlast
  exact ⟨u, hbuilt, hparticles⟩

end TransferBuilder

end ParticleLedger
