import ParticleLedger.Bytes

/-!
# SHA-2 — the 32-bit and the 64-bit hash of one design

FIPS 180-4 describes SHA-256 and SHA-512 by one scheme: pad the message to whole blocks, expand each
block of sixteen words into a schedule, and run one round per schedule word over a state of eight
words. The scheme is written once, over a record of the word operations in which the two differ
(`WordOps`); the 32-bit constants are the high halves of the 64-bit ones, since both take the
leading bits of the same square and cube roots.

Main statements: `length_sha256` and `length_sha512` (a digest has thirty-two or sixty-four bytes).
-/

namespace ParticleLedger.Hash

/-! ## The scheme -/

/-- What distinguishes the members of the family: word size, rotations and round constants. -/
structure WordOps (W : Type) where
  /-- Bytes in a word. -/
  size : Nat
  /-- The word with this value, modulo the word size. -/
  ofNat : Nat → W
  toNat : W → Nat
  add : W → W → W
  /-- Bitwise choice: where the first word has a one take the second, else the third. -/
  choose : W → W → W → W
  /-- Bitwise majority of three words. -/
  majority : W → W → W → W
  bigSigma0 : W → W
  bigSigma1 : W → W
  smallSigma0 : W → W
  smallSigma1 : W → W
  /-- One constant for each round. -/
  constants : List W

/-- The eight working words. -/
structure WorkingState (W : Type) where
  a : W
  b : W
  c : W
  d : W
  e : W
  f : W
  g : W
  h : W

variable {W : Type}

/-- Word by word sum of two states. -/
def WorkingState.zipAdd (ops : WordOps W) (s t : WorkingState W) : WorkingState W :=
  ⟨ops.add s.a t.a, ops.add s.b t.b, ops.add s.c t.c, ops.add s.d t.d,
   ops.add s.e t.e, ops.add s.f t.f, ops.add s.g t.g, ops.add s.h t.h⟩

/-- The bytes of the eight words, each with its most significant byte first. -/
def WorkingState.bytes (ops : WordOps W) (s : WorkingState W) : Bytes :=
  [s.a, s.b, s.c, s.d, s.e, s.f, s.g, s.h].flatMap fun w => Bytes.bigEndian ops.size (ops.toNat w)

/-- One round: mixes a round constant and a schedule word into the state. -/
def WorkingState.round (ops : WordOps W) (s : WorkingState W) (kw : W × W) : WorkingState W :=
  let t1 := ops.add (ops.add (ops.add s.h (ops.bigSigma1 s.e)) (ops.choose s.e s.f s.g))
    (ops.add kw.1 kw.2)
  let t2 := ops.add (ops.bigSigma0 s.a) (ops.majority s.a s.b s.c)
  ⟨ops.add t1 t2, s.a, s.b, s.c, ops.add s.d t1, s.e, s.f, s.g⟩

/-- The message schedule: sixteen words of the block, then each word from the one sixteen, fifteen,
seven and two places before it. The window holds the next sixteen words. -/
def schedule (ops : WordOps W) : (count : Nat) → (window : Vector W 16) → List W
  | 0, _ => []
  | count + 1, window =>
    let next := ops.add (ops.add (ops.smallSigma1 window[14]) window[9])
      (ops.add (ops.smallSigma0 window[1]) window[0])
    -- The window slides by one word, so it holds all that the next word depends on.
    window[0] :: schedule ops count (window.tail.push next)

/-- The first `count` pieces of `size` elements each. -/
def pieces {α : Type} (size : Nat) : (count : Nat) → List α → List (List α)
  | 0, _ => []
  | count + 1, xs => xs.take size :: pieces size count (xs.drop size)

/-- The sixteen words of a block. -/
def blockWords (ops : WordOps W) (block : Bytes) : Vector W 16 :=
  let words := (pieces ops.size 16 block).toArray
  Vector.ofFn fun i => ops.ofNat (Bytes.ofBigEndian (words.getD i.val []))

/-- Folds one block into the state. -/
def compress (ops : WordOps W) (s : WorkingState W) (block : Bytes) : WorkingState W :=
  let words := schedule ops ops.constants.length (blockWords ops block)
  s.zipAdd ops ((ops.constants.zip words).foldl (WorkingState.round ops) s)

/-- The padded message: a one bit, the fewest zeros, and the length in bits in two words, so that
whole blocks of sixteen words result. -/
def pad (size : Nat) (message : Bytes) : Bytes :=
  let used := (message.length + 1 + 2 * size) % (16 * size)
  -- The byte 0x80 is the one bit with the first seven of the zeros.
  message ++ 0x80 :: (List.replicate ((16 * size - used) % (16 * size)) 0
    ++ Bytes.bigEndian (2 * size) (8 * message.length))

/-- The digest of a message from an initial state. -/
def digest (ops : WordOps W) (initial : WorkingState W) (message : Bytes) : Bytes :=
  let padded := pad ops.size message
  -- The padded message is a whole number of blocks, so nothing is left over.
  let blocks := pieces (16 * ops.size) (padded.length / (16 * ops.size)) padded
  (blocks.foldl (compress ops) initial).bytes ops

theorem WorkingState.length_bytes (ops : WordOps W) (s : WorkingState W) :
    (s.bytes ops).length = 8 * ops.size := by
  simp [WorkingState.bytes]
  omega

/-! ## Constants -/

/-- The leading 64 bits of the fractional parts of the cube roots of the first eighty primes. -/
def cubeRootBits : List UInt64 :=
  [0x428a2f98d728ae22, 0x7137449123ef65cd, 0xb5c0fbcfec4d3b2f, 0xe9b5dba58189dbbc,
   0x3956c25bf348b538, 0x59f111f1b605d019, 0x923f82a4af194f9b, 0xab1c5ed5da6d8118,
   0xd807aa98a3030242, 0x12835b0145706fbe, 0x243185be4ee4b28c, 0x550c7dc3d5ffb4e2,
   0x72be5d74f27b896f, 0x80deb1fe3b1696b1, 0x9bdc06a725c71235, 0xc19bf174cf692694,
   0xe49b69c19ef14ad2, 0xefbe4786384f25e3, 0x0fc19dc68b8cd5b5, 0x240ca1cc77ac9c65,
   0x2de92c6f592b0275, 0x4a7484aa6ea6e483, 0x5cb0a9dcbd41fbd4, 0x76f988da831153b5,
   0x983e5152ee66dfab, 0xa831c66d2db43210, 0xb00327c898fb213f, 0xbf597fc7beef0ee4,
   0xc6e00bf33da88fc2, 0xd5a79147930aa725, 0x06ca6351e003826f, 0x142929670a0e6e70,
   0x27b70a8546d22ffc, 0x2e1b21385c26c926, 0x4d2c6dfc5ac42aed, 0x53380d139d95b3df,
   0x650a73548baf63de, 0x766a0abb3c77b2a8, 0x81c2c92e47edaee6, 0x92722c851482353b,
   0xa2bfe8a14cf10364, 0xa81a664bbc423001, 0xc24b8b70d0f89791, 0xc76c51a30654be30,
   0xd192e819d6ef5218, 0xd69906245565a910, 0xf40e35855771202a, 0x106aa07032bbd1b8,
   0x19a4c116b8d2d0c8, 0x1e376c085141ab53, 0x2748774cdf8eeb99, 0x34b0bcb5e19b48a8,
   0x391c0cb3c5c95a63, 0x4ed8aa4ae3418acb, 0x5b9cca4f7763e373, 0x682e6ff3d6b2b8a3,
   0x748f82ee5defb2fc, 0x78a5636f43172f60, 0x84c87814a1f0ab72, 0x8cc702081a6439ec,
   0x90befffa23631e28, 0xa4506cebde82bde9, 0xbef9a3f7b2c67915, 0xc67178f2e372532b,
   0xca273eceea26619c, 0xd186b8c721c0c207, 0xeada7dd6cde0eb1e, 0xf57d4f7fee6ed178,
   0x06f067aa72176fba, 0x0a637dc5a2c898a6, 0x113f9804bef90dae, 0x1b710b35131c471b,
   0x28db77f523047d84, 0x32caab7b40c72493, 0x3c9ebe0a15c9bebc, 0x431d67c49c100d4c,
   0x4cc5d4becb3e42b6, 0x597f299cfc657e2a, 0x5fcb6fab3ad6faec, 0x6c44198c4a475817]

/-- The leading 64 bits of the fractional parts of the square roots of the first eight primes. -/
def squareRootBits : WorkingState UInt64 :=
  ⟨0x6a09e667f3bcc908, 0xbb67ae8584caa73b, 0x3c6ef372fe94f82b, 0xa54ff53a5f1d36f1,
   0x510e527fade682d1, 0x9b05688c2b3e6c1f, 0x1f83d9abfb41bd6b, 0x5be0cd19137e2179⟩

/-- The high half of a 64-bit word. -/
def highHalf (w : UInt64) : UInt32 :=
  (w >>> 32).toUInt32

/-! ## The two members -/

/-- Rotation of a 32-bit word to the right, for `0 < n < 32`. -/
def rotateRight32 (w n : UInt32) : UInt32 :=
  (w >>> n) ||| (w <<< (32 - n))

/-- Rotation of a 64-bit word to the right, for `0 < n < 64`. -/
def rotateRight64 (w n : UInt64) : UInt64 :=
  (w >>> n) ||| (w <<< (64 - n))

/-- The word operations of SHA-256. -/
def ops256 : WordOps UInt32 where
  size := 4
  ofNat := UInt32.ofNat
  toNat := UInt32.toNat
  add := (· + ·)
  choose x y z := (x &&& y) ^^^ (~~~x &&& z)
  majority x y z := (x &&& y) ^^^ (x &&& z) ^^^ (y &&& z)
  bigSigma0 w := rotateRight32 w 2 ^^^ rotateRight32 w 13 ^^^ rotateRight32 w 22
  bigSigma1 w := rotateRight32 w 6 ^^^ rotateRight32 w 11 ^^^ rotateRight32 w 25
  smallSigma0 w := rotateRight32 w 7 ^^^ rotateRight32 w 18 ^^^ (w >>> 3)
  smallSigma1 w := rotateRight32 w 17 ^^^ rotateRight32 w 19 ^^^ (w >>> 10)
  constants := (cubeRootBits.take 64).map highHalf

/-- The word operations of SHA-512. -/
def ops512 : WordOps UInt64 where
  size := 8
  ofNat := UInt64.ofNat
  toNat := UInt64.toNat
  add := (· + ·)
  choose x y z := (x &&& y) ^^^ (~~~x &&& z)
  majority x y z := (x &&& y) ^^^ (x &&& z) ^^^ (y &&& z)
  bigSigma0 w := rotateRight64 w 28 ^^^ rotateRight64 w 34 ^^^ rotateRight64 w 39
  bigSigma1 w := rotateRight64 w 14 ^^^ rotateRight64 w 18 ^^^ rotateRight64 w 41
  smallSigma0 w := rotateRight64 w 1 ^^^ rotateRight64 w 8 ^^^ (w >>> 7)
  smallSigma1 w := rotateRight64 w 19 ^^^ rotateRight64 w 61 ^^^ (w >>> 6)
  constants := cubeRootBits

/-- The SHA-256 digest. -/
def sha256 (message : Bytes) : Bytes :=
  let r := squareRootBits
  digest ops256 ⟨highHalf r.a, highHalf r.b, highHalf r.c, highHalf r.d,
    highHalf r.e, highHalf r.f, highHalf r.g, highHalf r.h⟩ message

/-- The SHA-512 digest. -/
def sha512 (message : Bytes) : Bytes :=
  digest ops512 squareRootBits message

@[simp] theorem length_sha256 (message : Bytes) : (sha256 message).length = 32 := by
  simp [sha256, digest, WorkingState.length_bytes, ops256]

@[simp] theorem length_sha512 (message : Bytes) : (sha512 message).length = 64 := by
  simp [sha512, digest, WorkingState.length_bytes, ops512]

end ParticleLedger.Hash
