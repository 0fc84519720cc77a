import ParticleLedger.Particle
import ParticleLedger.Error

/-!
# Atoms

An atom is an immutable bundle of particles. Its name is the digest of its canonical bytes, which
cover the particles with their spins, the payload and the timestamp, and leave the signatures out:
signatures are made over the name.

Main statements: `Atom.id_withSignature` (signing does not change the name).
-/

namespace ParticleLedger

open Canonical (Value)
open Std (ExtTreeMap)

/-- Data of an application, with the copies of its key for the readers it is meant for. -/
structure Payload where
  data : Bytes
  protectors : List Bytes
  deriving DecidableEq

def Payload.canonical (p : Payload) : Value :=
  .record "radix.payload"
    [("data", .bytes p.data), ("protectors", .list (p.protectors.map .bytes))]

/-- A bundle of particles with the signatures that authorise it. -/
structure Atom where
  particles : List Particle
  /-- Milliseconds since the epoch; zero is not a valid time. -/
  timestamp : UInt64
  payload : Option Payload
  signatures : ExtTreeMap PublicKey Signature
  deriving DecidableEq

namespace Atom

/-- An atom without signatures. -/
def unsigned (particles : List Particle) (timestamp : UInt64) (payload : Option Payload) : Atom :=
  ⟨particles, timestamp, payload, ∅⟩

/-! ## Name -/

/-- A particle together with its spin. -/
def spunParticle (p : Particle) : Value :=
  .record "radix.spun_particle" [("particle", p.canonical), ("spin", .number p.spin.value)]

def canonical (a : Atom) : Value :=
  .record "radix.atom"
    [("particles", .list (a.particles.map spunParticle)),
     ("payload", .ofOption (a.payload.map Payload.canonical)),
     ("timestamp", .number a.timestamp)]

/-- The canonical bytes. -/
def canonicalBytes (a : Atom) : Bytes :=
  a.canonical.encode

/-- The name of the atom. -/
def id (a : Atom) : AtomId :=
  ⟨a.canonical.digest⟩

/-- The atom with a signature stored under a key, in place of an earlier one. -/
def withSignature (a : Atom) (signer : PublicKey) (s : Signature) : Atom :=
  { a with signatures := a.signatures.insert signer s }

@[simp] theorem id_withSignature (a : Atom) (signer : PublicKey) (s : Signature) :
    (a.withSignature signer s).id = a.id := rfl

/-! ## Contents -/

/-- The coins that the atom spends. -/
def consumers (a : Atom) : List Coin :=
  a.particles.filterMap Particle.consumed?

/-- The coins that the atom creates. -/
def consumables (a : Atom) : List Coin :=
  a.particles.filterMap Particle.created?

/-- For each token of the atom, what it creates of it minus what it spends. -/
def tokenDeltas (a : Atom) : ExtTreeMap TokenRef Int :=
  (a.particles.filterMap Particle.delta?).foldl
    (fun deltas d => deltas.insert d.1 (deltas.getD d.1 0 + d.2)) ∅

/-- The atom creates as much of every token as it spends. -/
def isBalanced (a : Atom) : Bool :=
  a.tokenDeltas.toList.all (·.2 = 0)

/-! ## Authorisation -/

/-- What is wrong with the signature of one owner. -/
def ownerFault? (scheme : SignatureScheme) (a : Atom) (owner : PublicKey) :
    Option AuthorizationFault :=
  match a.signatures[owner]? with
  | none => some (.missing a.id owner)
  | some s => if scheme.verifyId owner a.id s then none else some (.invalid a.id owner)

/-- The first thing wrong with the signatures: every owner of every coin that is spent must have
signed the name of the atom. -/
def authorizationFault? (scheme : SignatureScheme) (a : Atom) : Option AuthorizationFault :=
  (a.consumers.flatMap (·.owners.toList)).findSome? (a.ownerFault? scheme)

/-- Checks that the owners of all coins that are spent have signed. -/
def verifySignatures (scheme : SignatureScheme) (a : Atom) : Except LedgerError Unit :=
  match a.authorizationFault? scheme with
  | none => .ok ()
  | some fault => .error (.signature fault)

end Atom

/-- Checks a signature over the name of an atom against the key of a seed. -/
def SignatureScheme.checkId (scheme : SignatureScheme) (seed : Seed) (id : AtomId) (s : Signature) :
    Except LedgerError Unit :=
  match scheme.fault? (scheme.publicKey seed) id.digest.toList s with
  | none => .ok ()
  | some fault => .error (.signature (.refused fault))

end ParticleLedger
