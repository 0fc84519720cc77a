import ParticleLedger.Hash.Sha2
import ParticleLedger.Order

/-!
# Digests and identifiers

A digest is a SHA-256 hash, a block of thirty-two bytes. Atoms and particles are named by the digest
of their canonical bytes; the two kinds of name are kept apart by type. All three are ordered byte
by byte, have a full text of 64 hexadecimal digits, and a short text for diagnostics that shows the
first twelve.
-/

namespace ParticleLedger

open Std (TransOrd LawfulEqOrd)

/-- A block of thirty-two bytes. -/
abbrev Block32 := Vector UInt8 32

/-- The list as a block, if it has thirty-two bytes. -/
def Block32.ofBytes? (bs : Bytes) : Option Block32 :=
  if h : bs.length = 32 then some ⟨bs.toArray, by simpa using h⟩ else none

/-- The short text of some bytes under a name: the first twelve hexadecimal digits. -/
def Bytes.abbreviated (name : String) (bs : Bytes) : String :=
  name ++ "(" ++ Bytes.toHex (bs.take 6) ++ "..)"

/-! ## Digest -/

/-- A SHA-256 digest. -/
structure Digest where
  bytes : Block32
  deriving DecidableEq

namespace Digest

instance : Ord Digest := ⟨compareOn (·.bytes)⟩
instance : TransOrd Digest := transCmp_compareOn _
instance : LawfulEqOrd Digest := lawfulEqCmp_compareOn fun {a b} h => by cases a; cases b; simp_all

/-- The digest of some bytes. -/
def of (bs : Bytes) : Digest :=
  ⟨⟨(Hash.sha256 bs).toArray, by simp⟩⟩

def toList (d : Digest) : Bytes :=
  d.bytes.toList

/-- The full text: 64 hexadecimal digits. -/
def hex (d : Digest) : String :=
  Bytes.toHex d.toList

/-- The diagnostic text. -/
def describe (d : Digest) : String :=
  d.toList.abbreviated "Hash"

end Digest

/-! ## Names of atoms and particles -/

/-- The name of an atom: the digest of its canonical bytes. -/
structure AtomId where
  digest : Digest
  deriving DecidableEq

/-- The name of a particle: the digest of its canonical bytes. A coin has one name whether it is
created or consumed. -/
structure ParticleId where
  digest : Digest
  deriving DecidableEq

namespace AtomId

instance : Ord AtomId := ⟨compareOn (·.digest)⟩
instance : TransOrd AtomId := transCmp_compareOn _
instance : LawfulEqOrd AtomId := lawfulEqCmp_compareOn fun {a b} h => by cases a; cases b; simp_all

/-- The full text: 64 hexadecimal digits. -/
def hex (a : AtomId) : String :=
  a.digest.hex

/-- The diagnostic text. -/
def describe (a : AtomId) : String :=
  a.digest.toList.abbreviated "AtomId"

end AtomId

namespace ParticleId

instance : Ord ParticleId := ⟨compareOn (·.digest)⟩
instance : TransOrd ParticleId := transCmp_compareOn _
instance : LawfulEqOrd ParticleId :=
  lawfulEqCmp_compareOn fun {a b} h => by cases a; cases b; simp_all

/-- The full text: 64 hexadecimal digits. -/
def hex (p : ParticleId) : String :=
  p.digest.hex

/-- The diagnostic text. -/
def describe (p : ParticleId) : String :=
  p.digest.toList.abbreviated "ParticleId"

end ParticleId

end ParticleLedger
