import ParticleLedger.Atom.Basic
import ParticleLedger.Transfer.Selection

/-!
# Building and signing transfers

A transfer is described by its token, recipients and amount, and is built from the coins of a
snapshot: a policy chooses what to spend, fresh nonces are drawn for what is created, and the result
is refused unless the token is conserved. What comes out still has to be signed by the owners of
every coin that is spent.
-/

namespace ParticleLedger

/-- The numbers that a source of nonces gives from now on. -/
abbrev Nonces := Nat → UInt64

namespace Nonces

/-- The source after `n` draws. -/
def drop (n : Nat) (nonces : Nonces) : Nonces :=
  fun k => nonces (n + k)

/-- The source that counts up, and starts again at zero after the greatest number. -/
def countingFrom (start : UInt64) : Nonces :=
  fun k => start + UInt64.ofNat k

end Nonces

/-- The timestamp of a clock reading in milliseconds since the epoch; times before it count
as one. -/
def timestampOf (now : Int) : UInt64 :=
  if now < 0 then 1 else UInt64.ofNat now.toNat

/-- A transfer to be built. -/
structure TransferBuilder where
  token : TokenRef
  recipient : KeySet
  amount : UInt64
  /-- Particles added as they are, such as fees and markers. -/
  extraParticles : List Particle
  payload : Option Payload
  /-- The timestamp; the clock's if none is given. -/
  timestamp : Option UInt64
  selector : CoinSelector

/-- An atom that waits for signatures, with the selection it was built from. -/
structure UnsignedAtom where
  atom : Atom
  selection : Selection
  deriving DecidableEq

namespace TransferBuilder

/-- A plain transfer. -/
def plain (token : TokenRef) (recipient : KeySet) (amount : UInt64) : TransferBuilder :=
  ⟨token, recipient, amount, [], none, none, greedyFirstFit⟩

/-- The diagnostic text. -/
def describe (b : TransferBuilder) : String :=
  "TransferBuilder \x7b token: " ++ b.token.describe ++ ", recipient: " ++ b.recipient.describe
    ++ ", amount: " ++ toString b.amount.toNat ++ ", extra_particles: "
    ++ toString b.extraParticles.length ++ ", .. \x7d"

/-- What the policy chooses from the coins of the token. -/
def select (b : TransferBuilder) (coins : List Coin) : Except LedgerError Selection :=
  b.selector (coinsOf b.token coins) b.amount b.recipient

/-- The coins to create, each with the next nonce. -/
def outputs (b : TransferBuilder) (nonces : Nonces) (s : Selection) : List Coin :=
  s.produced.mapIdx fun i output => ⟨b.token, output.2, output.1, nonces i⟩

/-- The particles of the atom: what is spent, what is created, and the extra ones. -/
def particles (b : TransferBuilder) (nonces : Nonces) (s : Selection) : List Particle :=
  s.spent.map .consumer ++ (b.outputs nonces s).map .consumable ++ b.extraParticles

/-- How many nonces building draws: one for each output, none if nothing can be selected. -/
def drawn (b : TransferBuilder) (coins : List Coin) : Nat :=
  match b.select coins with
  | .ok s => s.produced.length
  | .error _ => 0

/-- The atom made from a selection. -/
def assemble (b : TransferBuilder) (nonces : Nonces) (now : Int) (s : Selection) : Atom :=
  .unsigned (b.particles nonces s) (b.timestamp.getD (timestampOf now)) b.payload

/-- Builds the transfer from the coins of a snapshot; coins of other tokens are passed over. -/
def build (b : TransferBuilder) (nonces : Nonces) (now : Int) (coins : List Coin) :
    Except LedgerError UnsignedAtom := do
  let s ← b.select coins
  let atom := b.assemble nonces now s
  -- Only the token to be transferred is looked at, whatever else the extra particles hold.
  let delta := atom.tokenDeltas.getD b.token 0
  if delta ≠ 0 then throw (.invalidTransfer (.unbalanced b.token delta))
  return ⟨atom, s⟩

end TransferBuilder

namespace UnsignedAtom

/-- The name of the atom, which is what is signed. -/
def id (u : UnsignedAtom) : AtomId :=
  u.atom.id

/-- The atom with a signature of every signer. -/
def withSignatures (scheme : SignatureScheme) (u : UnsignedAtom) (signers : List Seed) : Atom :=
  signers.foldl
    (fun atom seed => atom.withSignature (scheme.publicKey seed) (scheme.signId seed u.id)) u.atom

/-- Signs with all signers, and refuses the result unless every owner of a coin that is spent is
among them. -/
def signAll (scheme : SignatureScheme) (u : UnsignedAtom) (signers : List Seed) :
    Except LedgerError Atom := do
  let atom := u.withSignatures scheme signers
  atom.verifySignatures scheme
  return atom

/-- Signs with one signer. -/
def sign (scheme : SignatureScheme) (u : UnsignedAtom) (signer : Seed) :
    Except LedgerError Atom :=
  u.signAll scheme [signer]

end UnsignedAtom

end ParticleLedger
