import ParticleLedger.Token

/-!
# Particles

A particle is a unit of state change. Coins carry value: creating one and spending it later are two
particles over the same coin, and since the name of a particle leaves its spin out, both have one
name. Token definitions and claims of unique names are created and never spent.
-/

namespace ParticleLedger

open Canonical (Value)

/-! ## Bodies -/

/-- An amount of a token with its owners. The nonce tells otherwise equal coins apart. -/
structure Coin where
  token : TokenRef
  quantity : UInt64
  owners : KeySet
  nonce : UInt64
  deriving DecidableEq

/-- What is to be known about a token. -/
structure TokenDefinition where
  token : TokenRef
  name : String
  description : String
  /-- The smallest amount that can be transferred; all amounts are multiples of it. -/
  granularity : UInt64
  owners : KeySet
  deriving DecidableEq

/-- A claim of a name. -/
structure UniqueId where
  name : String
  owners : KeySet
  nonce : UInt64
  deriving DecidableEq

/-- Whether a particle appears or disappears. -/
inductive Spin where
  | up
  | down
  deriving DecidableEq

/-- The number that stands for a spin. -/
def Spin.value : Spin → UInt64
  | .up => 1
  | .down => 2

/-- Whether the owners include the key of the address. -/
def KeySet.includes (owners : KeySet) (a : Address) : Bool :=
  owners.contains a.key

namespace Coin

def canonical (c : Coin) : Value :=
  .record "radix.particles.transfer"
    [("nonce", .number c.nonce), ("owners", c.owners.canonical),
     ("quantity", .number c.quantity), ("token", c.token.canonical)]

/-- The name of the coin. -/
def id (c : Coin) : ParticleId :=
  ⟨c.canonical.digest⟩

/-- Whether the address is among the owners. -/
def ownedBy (c : Coin) (a : Address) : Bool :=
  c.owners.includes a

end Coin

def TokenDefinition.canonical (d : TokenDefinition) : Value :=
  .record "radix.particles.token_definition"
    [("description", .text d.description), ("granularity", .number d.granularity),
     ("name", .text d.name), ("owners", d.owners.canonical), ("token", d.token.canonical)]

def UniqueId.canonical (u : UniqueId) : Value :=
  .record "radix.particles.unique_id"
    [("name", .text u.name), ("nonce", .number u.nonce), ("owners", u.owners.canonical)]

/-! ## Particles -/

/-- A unit of state change. -/
inductive Particle where
  /-- Creates a coin. -/
  | consumable (coin : Coin)
  /-- Spends a coin. -/
  | consumer (coin : Coin)
  | tokenDefinition (definition : TokenDefinition)
  | uniqueId (claim : UniqueId)
  deriving DecidableEq

namespace Particle

def spin : Particle → Spin
  | consumer _ => .down
  | _ => .up

/-- The canonical value of the body; the spin is left out. -/
def canonical : Particle → Value
  | consumable c => c.canonical
  | consumer c => c.canonical
  | tokenDefinition d => d.canonical
  | uniqueId u => u.canonical

/-- The name of the particle. -/
def id (p : Particle) : ParticleId :=
  ⟨p.canonical.digest⟩

/-- The coin that the particle creates or spends. -/
def coin? : Particle → Option Coin
  | consumable c => some c
  | consumer c => some c
  | _ => none

/-- The coin that the particle creates. -/
def created? : Particle → Option Coin
  | consumable c => some c
  | _ => none

/-- The coin that the particle spends. -/
def consumed? : Particle → Option Coin
  | consumer c => some c
  | _ => none

def owners : Particle → KeySet
  | consumable c => c.owners
  | consumer c => c.owners
  | tokenDefinition d => d.owners
  | uniqueId u => u.owners

/-- Whether the address is among the owners. -/
def ownedBy (p : Particle) (a : Address) : Bool :=
  p.owners.includes a

/-- The token that the particle is about. -/
def token? : Particle → Option TokenRef
  | consumable c => some c.token
  | consumer c => some c.token
  | tokenDefinition d => some d.token
  | uniqueId _ => none

/-- The amount by which the particle changes the supply in circulation: its quantity when it creates
a coin, minus its quantity when it spends one. -/
def delta? : Particle → Option (TokenRef × Int)
  | consumable c => some (c.token, c.quantity.toNat)
  | consumer c => some (c.token, -c.quantity.toNat)
  | _ => none

end Particle

end ParticleLedger
