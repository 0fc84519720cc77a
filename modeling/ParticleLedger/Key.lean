import ParticleLedger.Digest

/-!
# Keys, addresses and signatures

A public key is thirty-two bytes and a signature sixty-four. An address is the account of one public
key. A key set lists the owners of something: it is ordered by the keys' bytes and holds no key
twice, so two sets with the same members are the same set.

How signatures are made and checked is left to a `SignatureScheme`; the statements of the library
that speak of signing hold for every scheme, and where they need that a scheme accepts what it
signed they say so (`SignatureScheme.Sound`).
-/

namespace ParticleLedger

open Std (TransOrd LawfulEqOrd ExtTreeSet)

/-! ## Public keys -/

/-- A public key. -/
structure PublicKey where
  bytes : Block32
  deriving DecidableEq

namespace PublicKey

instance : Ord PublicKey := ⟨compareOn (·.bytes)⟩
instance : TransOrd PublicKey := transCmp_compareOn _
instance : LawfulEqOrd PublicKey :=
  lawfulEqCmp_compareOn fun {a b} h => by cases a; cases b; simp_all

def toList (k : PublicKey) : Bytes :=
  k.bytes.toList

/-- The full text: 64 hexadecimal digits. -/
def hex (k : PublicKey) : String :=
  Bytes.toHex k.toList

/-- The diagnostic text. -/
def describe (k : PublicKey) : String :=
  k.toList.abbreviated "PublicKey"

end PublicKey

/-! ## Addresses -/

/-- The account of one public key. -/
structure Address where
  key : PublicKey
  deriving DecidableEq

namespace Address

instance : Ord Address := ⟨compareOn (·.key)⟩
instance : TransOrd Address := transCmp_compareOn _
instance : LawfulEqOrd Address :=
  lawfulEqCmp_compareOn fun {a b} h => by cases a; cases b; simp_all

/-- The full text: the hexadecimal digits of the key. -/
def hex (a : Address) : String :=
  a.key.hex

/-- The diagnostic text. -/
def describe (a : Address) : String :=
  a.key.toList.abbreviated "Address"

end Address

/-! ## Key sets -/

/-- A set of public keys. -/
abbrev KeySet := ExtTreeSet PublicKey

namespace KeySet

/-- The set of the listed keys. -/
def ofList (keys : List PublicKey) : KeySet :=
  ExtTreeSet.ofList keys

/-- The set of one key. -/
def single (key : PublicKey) : KeySet :=
  ofList [key]

/-- Sets are compared as their ordered lists of keys. -/
instance : Ord KeySet := ⟨compareOn (·.toList)⟩

/-- The diagnostic text. -/
def describe (s : KeySet) : String :=
  "KeySet(\x7b" ++ ", ".intercalate (s.toList.map PublicKey.describe) ++ "\x7d)"

end KeySet

/-- Whether the key is the one of this address. -/
def Address.owns (a : Address) (k : PublicKey) : Bool :=
  a.key = k

/-! ## Signatures -/

/-- A signature. -/
structure Signature where
  bytes : Vector UInt8 64
  deriving DecidableEq

namespace Signature

/-- The list as a signature, if it has sixty-four bytes. -/
def ofBytes? (bs : Bytes) : Option Signature :=
  if h : bs.length = 64 then some ⟨⟨bs.toArray, by simpa using h⟩⟩ else none

def toList (s : Signature) : Bytes :=
  s.bytes.toList

/-- The full text: 128 hexadecimal digits. -/
def hex (s : Signature) : String :=
  Bytes.toHex s.toList

/-- The diagnostic text. -/
def describe (s : Signature) : String :=
  s.toList.abbreviated "Signature"

end Signature

/-- Why a signature is refused. -/
inductive SignatureFault where
  /-- The key is not one of the scheme's. -/
  | badKey
  /-- The scalar part is out of range. -/
  | badScalar
  /-- The verification equation does not hold. -/
  | mismatch
  deriving DecidableEq

def SignatureFault.message : SignatureFault → String
  | .badKey => "Cannot decompress Edwards point"
  | .badScalar => "Cannot use scalar with high-bit set"
  | .mismatch => "Verification equation was not satisfied"

/-- The secret from which a key pair is made. -/
abbrev Seed := Block32

/-- A way of signing with secret seeds. -/
structure SignatureScheme where
  publicKey : Seed → PublicKey
  sign : Seed → Bytes → Signature
  /-- `none` accepts the signature. -/
  fault? : PublicKey → Bytes → Signature → Option SignatureFault

namespace SignatureScheme

/-- Whether the scheme accepts the signature of the message under the key. -/
def verify (scheme : SignatureScheme) (key : PublicKey) (message : Bytes) (s : Signature) : Bool :=
  (scheme.fault? key message s).isNone

/-- The account that a seed controls. -/
def address (scheme : SignatureScheme) (seed : Seed) : Address :=
  ⟨scheme.publicKey seed⟩

/-- The signature over the name of an atom. -/
def signId (scheme : SignatureScheme) (seed : Seed) (id : AtomId) : Signature :=
  scheme.sign seed id.digest.toList

/-- Whether the signature over the name of an atom is accepted under the key. -/
def verifyId (scheme : SignatureScheme) (key : PublicKey) (id : AtomId) (s : Signature) : Bool :=
  scheme.verify key id.digest.toList s

/-- The scheme accepts what it signs. -/
def Sound (scheme : SignatureScheme) : Prop :=
  ∀ seed message, scheme.verify (scheme.publicKey seed) message (scheme.sign seed message)

end SignatureScheme

end ParticleLedger
