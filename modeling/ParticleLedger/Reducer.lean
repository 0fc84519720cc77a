import ParticleLedger.Atom.Basic

/-!
# Reducers

A reducer folds the particles that concern an address into a state. There are two: one keeps the
balances of the address and its unspent coins, the other the definitions of tokens.
-/

namespace ParticleLedger

open Std (ExtTreeMap)

/-- A particle of a validated atom, with what a reducer may want to know about where it
came from. -/
structure ParticleEvent where
  /-- The address whose state is reduced. -/
  address : Address
  /-- The atom that carries the particle. -/
  atom : AtomId
  /-- The timestamp of the atom. -/
  timestamp : UInt64
  particle : Particle

/-- The particles of an atom as an address sees them. -/
def Atom.events (a : Address) (atom : Atom) : List ParticleEvent :=
  let id := atom.id
  atom.particles.map fun p => ⟨a, id, atom.timestamp, p⟩

/-- A fold over particles. -/
structure Reducer (State : Type) where
  /-- The name by which it is known. -/
  name : String
  initial : State
  step : State → ParticleEvent → State

namespace Reducer

variable {State : Type}

/-- The state after the particles of an atom. -/
def foldAtom (r : Reducer State) (a : Address) (s : State) (atom : Atom) : State :=
  (atom.events a).foldl r.step s

/-- The state after some atoms, each with its particles in order. -/
def foldAtoms (r : Reducer State) (a : Address) (s : State) (atoms : List Atom) : State :=
  atoms.foldl (r.foldAtom a) s

end Reducer

/-! ## Balances -/

/-- What an address holds. -/
structure Holdings where
  /-- What was created minus what was spent, for each token ever seen. -/
  balances : ExtTreeMap TokenRef Int
  /-- The coins that were created and not spent since. -/
  unconsumed : ExtTreeMap ParticleId Coin
  deriving DecidableEq

namespace Holdings

/-- Nothing seen yet. -/
def none : Holdings := ⟨∅, ∅⟩

/-- The balance of a token; zero if it was never seen. -/
def balance (h : Holdings) (t : TokenRef) : Int :=
  h.balances.getD t 0

/-- The unspent coins of a token. -/
def unconsumedFor (h : Holdings) (t : TokenRef) : List Coin :=
  (h.unconsumed.toList.map (·.2)).filter (·.token = t)

/-- Adds to the balance of a token. -/
def credit (h : Holdings) (t : TokenRef) (amount : Int) : Holdings :=
  { h with balances := h.balances.insert t (h.balance t + amount) }

/-- The holdings after a particle; particles of others and those without value change nothing. -/
def after (h : Holdings) (a : Address) : Particle → Holdings
  | .consumable c =>
    if c.ownedBy a then
      { h.credit c.token c.quantity.toNat with unconsumed := h.unconsumed.insert c.id c }
    else h
  | .consumer c =>
    if c.ownedBy a then
      { h.credit c.token (-c.quantity.toNat) with unconsumed := h.unconsumed.erase c.id }
    else h
  | _ => h

end Holdings

/-- Keeps balances and unspent coins. -/
def balanceReducer : Reducer Holdings where
  name := "balance"
  initial := .none
  step h event := h.after event.address event.particle

/-! ## Token definitions -/

/-- What is known about tokens: the definition seen last for each. -/
abbrev TokenDefinitions := ExtTreeMap TokenRef TokenDefinition

/-- The definitions after a particle, whoever owns it. -/
def TokenDefinitions.after (known : TokenDefinitions) : Particle → TokenDefinitions
  | .tokenDefinition d => known.insert d.token d
  | _ => known

/-- Keeps token definitions. -/
def definitionReducer : Reducer TokenDefinitions where
  name := "token_definitions"
  initial := ∅
  step known event := known.after event.particle

end ParticleLedger
