import ParticleLedger.Ed25519.Curve
import ParticleLedger.Key

/-!
# Ed25519 — signing and checking

Signing follows RFC 8032. Checking is the equation without the cofactor: the scalar part must be
below the group order, and `[S]B - [k]A` must be written exactly as the first half of the signature.
Keys and points of small order are not refused.
-/

namespace ParticleLedger.Ed25519

/-- The scalar that a hash of the seed gives: a multiple of eight in `[2 ^ 254, 2 ^ 255)`. -/
def clamp (bs : Bytes) : Nat :=
  let n := Bytes.ofLittleEndian bs % (1 <<< 254)
  1 <<< 254 + n / 8 * 8

/-- The hash of some bytes as a scalar. -/
def hashScalar (bs : Bytes) : Nat :=
  Bytes.ofLittleEndian (Hash.sha512 bs) % order

/-- The list as thirty-two bytes; shorter ones are filled with zeros. -/
private def block32 (bs : Bytes) : Block32 :=
  Vector.ofFn fun i => bs.toArray.getD i.val 0

/-- The secret scalar of a seed, and the bytes from which its nonces are made. -/
def expand (seed : Seed) : Nat × Bytes :=
  let h := Hash.sha512 seed.toList
  (clamp (h.take 32), h.drop 32)

/-- The public key of a seed. -/
def publicKey (seed : Seed) : PublicKey :=
  ⟨block32 (Point.base.scale (expand seed).1).compress⟩

/-- The signature of a message. -/
def sign (seed : Seed) (message : Bytes) : Signature :=
  let (a, nonceKey) := expand seed
  let r := hashScalar (nonceKey ++ message)
  let rBytes := (Point.base.scale r).compress
  let k := hashScalar (rBytes ++ (publicKey seed).toList ++ message)
  let s := (r + k * a) % order
  ⟨Vector.ofFn fun i => (rBytes ++ Bytes.littleEndian 32 s).toArray.getD i.val 0⟩

/-- What is wrong with a signature of a message under a key, if anything is. -/
def fault? (key : PublicKey) (message : Bytes) (signature : Signature) : Option SignatureFault :=
  let rBytes := signature.toList.take 32
  let s := Bytes.ofLittleEndian (signature.toList.drop 32)
  match Point.decompress? key.toList with
  | none => some .badKey
  | some a =>
    if order ≤ s then some .badScalar
    else
      let k := hashScalar (rBytes ++ key.toList ++ message)
      let r := (Point.base.scale s).add (a.neg.scale k)
      -- The bytes are compared, not the points: one point has one accepted form.
      if r.compress = rBytes then none else some .mismatch

end ParticleLedger.Ed25519

namespace ParticleLedger

/-- Signing by Ed25519. -/
def ed25519 : SignatureScheme where
  publicKey := Ed25519.publicKey
  sign := Ed25519.sign
  fault? := Ed25519.fault?

end ParticleLedger
