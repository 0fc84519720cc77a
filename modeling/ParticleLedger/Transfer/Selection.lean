import ParticleLedger.Particle
import ParticleLedger.Error

/-!
# Choosing the coins of a transfer

A selection names the coins to spend and the outputs to create for them. The usual policy,
`greedyFirstFit`, spends coins whole in the order given until they cover the amount; what the last
of them holds beyond the amount goes back to its owners as a separate output.
-/

namespace ParticleLedger

/-- The coins to spend, and the owners and quantities of the coins to create. -/
structure Selection where
  spent : List Coin
  /-- The recipient first, then the change. -/
  produced : List (KeySet × UInt64)
  deriving DecidableEq

namespace Selection

/-- The total of the coins to spend, without bound. -/
def spentTotal (s : Selection) : Nat :=
  (s.spent.map (·.quantity.toNat)).foldr (· + ·) 0

/-- The total of the coins to create, without bound. -/
def producedTotal (s : Selection) : Nat :=
  (s.produced.map (·.2.toNat)).foldr (· + ·) 0

end Selection

/-- A policy for choosing coins: from the coins on offer, the amount and the recipients. -/
abbrev CoinSelector := List Coin → UInt64 → KeySet → Except LedgerError Selection

/-- The sum, or the greatest number of 64 bits if the sum is greater. -/
def saturatingAdd (a b : UInt64) : UInt64 :=
  if a.toNat + b.toNat < UInt64.size then a + b else UInt64.ofNat (UInt64.size - 1)

/-- What a walk over the coins picks up. -/
structure Pick where
  spent : List Coin
  /-- The value of the coins spent, up to the greatest number of 64 bits. -/
  total : UInt64
  /-- The value taken for the recipients. -/
  taken : UInt64
  /-- What is left of the covering coin, for its owners. -/
  change : Option (KeySet × UInt64)

/-- Spends coins from the front until the value spent, `total` so far, covers the amount. -/
def pick (amount : UInt64) : (total : UInt64) → List Coin → Pick
  | total, [] => ⟨[], total, 0, none⟩
  | total, coin :: rest =>
    if amount ≤ total then ⟨[], total, 0, none⟩
    else
      let take := min (amount - total) coin.quantity
      let change := coin.quantity - take
      let later := pick amount (saturatingAdd total coin.quantity) rest
      { spent := coin :: later.spent
        total := later.total
        taken := take + later.taken
        -- Only the coin that covers the amount is not taken whole.
        change := later.change.or (if 0 < change then some (coin.owners, change) else none) }

/-- Spends coins whole, in the order given, until they cover the amount. -/
def greedyFirstFit : CoinSelector := fun coins amount recipient =>
  if amount = 0 then .error (.invalidTransfer .zeroAmount)
  else
    let p := pick amount 0 coins
    if p.total < amount then .error (.insufficientFunds p.total amount)
    else .ok ⟨p.spent, (recipient, p.taken) :: p.change.toList⟩

/-- The coins of one token, in their order. -/
def coinsOf (token : TokenRef) (coins : List Coin) : List Coin :=
  coins.filter (·.token = token)

/-- The policy that makes the same choice of the coins on offer every time: the coins at some
places, as far as there are coins there, and what is produced for them. -/
def fixedChoice (places : List Nat) (produced : List (KeySet × UInt64)) : CoinSelector :=
  fun coins _ _ => .ok ⟨places.filterMap (coins[·]?), produced⟩

end ParticleLedger
